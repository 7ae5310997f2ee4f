import Lox.Diagnostic

/-!
# A scanner

A scanner goes through the bytes of a source.  Where a character takes several bytes it may stand
inside one; a text that is cut out of the source must begin and end between characters, and nothing
in this module makes sure of that.

* `Scanner` — where a scan is: the first byte of the lexeme in hand and the next byte.
* `Lexer` — a step of a scan; it may fail with a fault, which is an item of the scan, or crash.
* `look`, `bump`, `advance` — steps by single bytes; what is looked at past the end is 0.
* `slice`, `lexeme` — texts cut out of the source.
* `skip` — the step over all bytes of a class.
-/

namespace Lox.Scan

/-- Where a scan is. -/
structure Scanner where
  source : String
  bytes : Array UInt8
  encoded : bytes = source.toUTF8.data
  /-- The first byte of the lexeme in hand. -/
  start : Nat
  /-- The next byte to look at. -/
  pos : Nat
  /-- One more than the number of line feeds so far. -/
  line : Nat
  /-- Whether the end token has been yielded. -/
  done : Bool

/-- Why a step of a scan has no result. -/
inductive Halt where
  /-- A text was to be cut out that is not in the source, or not between characters. -/
  | crash
  | fault (line : Nat) (cause : LexicalFault)

/-- A step of a scan. -/
abbrev Lexer := EStateM Halt Scanner

namespace Scanner

/-- The scanner before a source. -/
def ofSource (source : String) : Scanner :=
  ⟨source, source.toUTF8.data, rfl, 0, 0, 1, false⟩

/-- Whether there is no byte left. -/
def atEnd (s : Scanner) : Bool :=
  decide (s.bytes.size ≤ s.pos)

/-- The byte some places ahead, or 0 past the end. -/
def look (s : Scanner) (offset : Nat) : UInt8 :=
  s.bytes[s.pos + offset]?.getD 0

theorem not_atEnd_iff {s : Scanner} : ¬s.atEnd = true ↔ s.pos < s.bytes.size := by
  simp only [atEnd, decide_eq_true_eq, Nat.not_le]

/-- What is past the end looks like 0, so any other byte is in the source. -/
theorem pos_lt_of_look_ne_zero {s : Scanner} (h : s.look 0 ≠ 0) : s.pos < s.bytes.size := by
  refine Nat.lt_of_not_le fun outside => h ?_
  simp [look, Array.getElem?_eq_none outside]

/-! ## Texts -/

/-- Whether a byte is one of a character that is not its first. -/
def isContinuation (b : UInt8) : Bool :=
  decide (0x80 ≤ b) && decide (b ≤ 0xBF)

/-- Whether a place among bytes is between characters. -/
def isBoundary (bytes : Array UInt8) (i : Nat) : Bool :=
  i == 0 || match bytes[i]? with
    | some b => !isContinuation b
    | none => i == bytes.size

/-- The text between two places, if both are between characters. -/
def slice? (bytes : Array UInt8) (first last : Nat) : Option String :=
  if first ≤ last ∧ isBoundary bytes first ∧ isBoundary bytes last then
    String.fromUTF8? ⟨bytes.extract first last⟩
  else none

/-- The offset of the next byte with the given value. -/
def memchr? (s : Scanner) (b : UInt8) : Option Nat :=
  (s.bytes.extract s.pos s.bytes.size).findIdx? (· == b)

/-! ## Loops -/

/-- A class of bytes that what is past the end does not belong to. -/
structure ByteClass where
  has : UInt8 → Bool
  nul : has 0 = false

/-- The scanner behind all bytes of a class that come next. -/
def skip (k : ByteClass) (s : Scanner) : Scanner :=
  if k.has (s.look 0) then skip k { s with pos := s.pos + 1 } else s
termination_by s.bytes.size - s.pos
decreasing_by
  rename_i inside
  have lt : s.pos < s.bytes.size :=
    pos_lt_of_look_ne_zero fun zero => by simp [zero, k.nul] at inside
  show s.bytes.size - (s.pos + 1) < s.bytes.size - s.pos
  omega

/-- The scanner before the next quote, or at the end. -/
def untilQuote (s : Scanner) : Scanner :=
  if s.atEnd then s
  else if s.look 0 = '"'.toUInt8 then s
  else if s.look 0 = '\n'.toUInt8 then untilQuote { s with pos := s.pos + 1, line := s.line + 1 }
  else untilQuote { s with pos := s.pos + 1 }
termination_by s.bytes.size - s.pos
decreasing_by
  all_goals
    rename_i more _ _
    have lt := not_atEnd_iff.1 more
    show s.bytes.size - (s.pos + 1) < s.bytes.size - s.pos
    omega

end Scanner

/-! ## Steps -/

/-- The byte some places ahead. -/
def look (offset : Nat) : Lexer UInt8 :=
  fun s => .ok (s.look offset) s

/-- Goes on by a byte. -/
def advance : Lexer Unit :=
  fun s => .ok () { s with pos := s.pos + 1 }

/-- Takes a byte. -/
def bump : Lexer UInt8 := do
  let b ← look 0
  advance
  return b

/-- The text between two places, which must be between characters. -/
def slice (first last : Nat) : Lexer String := fun s =>
  match Scanner.slice? s.bytes first last with
  | some text => .ok text s
  | none => .error .crash s

/-- The text of the lexeme in hand. -/
def lexeme : Lexer String :=
  fun s => slice s.start s.pos s

/-- Fails on the line the scan has come to. -/
def fail {α : Type} (cause : LexicalFault) : Lexer α :=
  fun s => .error (.fault s.line cause) s

end Lox.Scan
