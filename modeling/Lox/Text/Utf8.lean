/-!
# Decoding UTF-8

A text is stored as bytes.  A character is one lead byte and up to three continuation bytes; which
bytes may follow directly is narrowed for some lead bytes, so that no character has two encodings
and no surrogate has any.

* `Fault` — why bytes are no text, and from which byte on.
* `decode` — the text of a list of bytes.
-/

namespace Lox.Utf8

/-- Why bytes are no text. -/
inductive Fault where
  /-- From the given byte on, `length` bytes begin a character and the next one does not go on with
  it, or are no part of any character. -/
  | invalid (length index : Nat)
  /-- The bytes end inside the character that begins at the given byte. -/
  | incomplete (index : Nat)
  deriving DecidableEq, Repr

/-- The wording of a fault. -/
def Fault.message : Fault → String
  | invalid length index =>
    "invalid utf-8 sequence of " ++ Nat.repr length ++ " bytes from index " ++ Nat.repr index
  | incomplete index => "incomplete utf-8 byte sequence from index " ++ Nat.repr index

/-- What a lead byte announces: the bits it gives to the code point, how many bytes follow, and
the range of the first of them. -/
structure Lead where
  bits : Nat
  following : Nat
  low : Nat
  high : Nat
  deriving DecidableEq, Repr

/-- What a lead byte announces, if it is one. -/
def lead? (b : Nat) : Option Lead :=
  if b < 0x80 then some ⟨b, 0, 0x80, 0xBF⟩
  else if b < 0xC2 then none
  else if b < 0xE0 then some ⟨b - 0xC0, 1, 0x80, 0xBF⟩
  else if b = 0xE0 then some ⟨0, 2, 0xA0, 0xBF⟩
  else if b = 0xED then some ⟨0x0D, 2, 0x80, 0x9F⟩
  else if b < 0xF0 then some ⟨b - 0xE0, 2, 0x80, 0xBF⟩
  else if b = 0xF0 then some ⟨0, 3, 0x90, 0xBF⟩
  else if b < 0xF4 then some ⟨b - 0xF0, 3, 0x80, 0xBF⟩
  else if b = 0xF4 then some ⟨4, 3, 0x80, 0x8F⟩
  else none

/-- Reads `following` continuation bytes, the first of them in the given range, of a character
that begins at byte `index` and of which `length` bytes were read.  Gives the code point and the
rest. -/
def continuation (index length point low high : Nat) :
    (following : Nat) → List UInt8 → Except Fault (Nat × List UInt8)
  | 0, rest => .ok (point, rest)
  | _ + 1, [] => .error (.incomplete index)
  | following + 1, b :: rest =>
    if low ≤ b.toNat ∧ b.toNat ≤ high then
      continuation index (length + 1) (point * 64 + b.toNat % 64) 0x80 0xBF following rest
    else .error (.invalid length index)

/-- The first character of bytes that begin with `b` at byte `index`, and the rest. -/
def first (index : Nat) (b : UInt8) (bytes : List UInt8) : Except Fault (Char × List UInt8) :=
  match lead? b.toNat with
  | none => .error (.invalid 1 index)
  | some lead => do
    let (point, rest) ← continuation index 1 lead.bits lead.low lead.high lead.following bytes
    return (Char.ofNat point, rest)

/-- The characters of bytes that begin at byte `index`, at most `bound` of them. -/
def chars (size : Nat) : (bound : Nat) → List UInt8 → Except Fault (List Char)
  | 0, _ => return []
  | _, [] => return []
  | bound + 1, b :: bytes => do
    let (c, rest) ← first (size - (bytes.length + 1)) b bytes
    return c :: (← chars size bound rest)

/-- The text of bytes. -/
def decode (bytes : List UInt8) : Except Fault String := do
  return String.ofList (← chars bytes.length bytes.length bytes)

end Lox.Utf8
