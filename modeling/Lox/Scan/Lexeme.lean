import Lox.Scan.Scanner
import Lox.Token

/-!
# One lexeme

A lexeme is taken byte by byte from its first one on; that byte decides what the lexeme is.  All
classes of bytes are ranges of ASCII: a letter is one of `a` to `z` and `A` to `Z` or an underscore,
and only space, tab, carriage return and line feed separate lexemes.

* `scanToken` — takes one lexeme; none is yielded for blanks and comments.
* `string`, `number`, `identifier` — the rest of a lexeme that has no fixed spelling.
-/

namespace Lox.Scan

/-! ## Classes of bytes -/

/-- A decimal digit. -/
def isDigitByte (b : UInt8) : Bool :=
  decide ('0'.toUInt8 ≤ b) && decide (b ≤ '9'.toUInt8)

/-- What an identifier begins with. -/
def isLetterByte (b : UInt8) : Bool :=
  (decide ('a'.toUInt8 ≤ b) && decide (b ≤ 'z'.toUInt8)) ||
    (decide ('A'.toUInt8 ≤ b) && decide (b ≤ 'Z'.toUInt8)) || b == '_'.toUInt8

/-- The digits. -/
def digits : Scanner.ByteClass :=
  ⟨isDigitByte, by decide⟩

/-- What an identifier goes on with. -/
def wordBytes : Scanner.ByteClass :=
  ⟨fun b => isLetterByte b || isDigitByte b, by decide⟩

/-- Blanks other than a line feed. -/
def isBlankByte (b : UInt8) : Bool :=
  b == ' '.toUInt8 || b == '\r'.toUInt8 || b == '\t'.toUInt8

/-- The symbol that a byte is, if no longer one begins with it. -/
def single? (b : UInt8) : Option Symbol :=
  [('(', .leftParen), (')', .rightParen), ('{', .leftBrace), ('}', .rightBrace),
    (',', .comma), ('.', .dot), ('-', .minus), ('+', .plus), (';', .semicolon),
    ('*', Symbol.star)].findSome? fun (c, s) => if b == c.toUInt8 then some s else none

/-- The symbols that begin with a byte: the one that an equals sign ends, and the byte alone. -/
def either? (b : UInt8) : Option (Symbol × Symbol) :=
  [('!', .bangEqual, .bang), ('=', .equalEqual, .equal), ('<', .lessEqual, .less),
    ('>', Symbol.greaterEqual, Symbol.greater)].findSome?
      fun (c, long, short) => if b == c.toUInt8 then some (long, short) else none

/-! ## Literals -/

/-- The value of digits read one after another. -/
def digitsValue (ds : List Char) : Nat :=
  ds.foldl (fun n c => 10 * n + (c.toNat - '0'.toNat)) 0

/-- The value of a decimal without sign and exponent, with digits on at least one side of its
point. -/
def decimalValue? (text : List Char) : Option Float :=
  let whole := text.takeWhile Char.isDigit
  match text.dropWhile Char.isDigit with
  | [] => if whole.isEmpty then none else some (Number.ofDecimal (digitsValue whole) 0)
  | '.' :: fraction =>
    if fraction.all Char.isDigit && !(whole ++ fraction).isEmpty then
      some (Number.ofDecimal (digitsValue (whole ++ fraction)) fraction.length)
    else none
  | _ => none

/-! ## Lexemes -/

/-- The kind of a lexeme and what it denotes. -/
abbrev Lexeme := (kind : Kind) × kind.Payload

/-- A symbol of one or two bytes. -/
def either (second : UInt8) (long short : Symbol) : Lexer Symbol := do
  if (← look 0) == second then
    advance
    return long
  else return short

/-- Skips a comment, but not the line feed behind it. -/
def comment : Lexer Unit := fun s =>
  if s.pos ≤ s.bytes.size then
    .ok () { s with pos := match s.memchr? '\n'.toUInt8 with
      | some offset => s.pos + offset
      | none => s.bytes.size }
  else .error .crash s

/-- The rest of a string; it may go over several lines. -/
def string : Lexer Lexeme := do
  modify Scanner.untilQuote
  if (← get).atEnd then fail .unterminatedString
  else
    advance
    let s ← get
    return ⟨.string, ← slice (s.start + 1) (s.pos - 1)⟩

/-- A point and the digits behind it, if a digit follows the point. -/
def fraction : Lexer Unit := do
  if (← look 0) == '.'.toUInt8 && isDigitByte (← look 1) then
    advance
    modify (Scanner.skip digits)
  else return ()

/-- The rest of a number. -/
def number : Lexer Lexeme := do
  modify (Scanner.skip digits)
  fraction
  return ⟨.number, (decimalValue? (← lexeme).toList).getD 0⟩

/-- The rest of a word, which is a keyword if its whole spelling is one. -/
def identifier : Lexer Lexeme := do
  modify (Scanner.skip wordBytes)
  match Keyword.ofSpelling? (← lexeme).toList with
  | some k => return ⟨.keyword k, ()⟩
  | none => return ⟨.identifier, ()⟩

/-- Fails at a character that no lexeme begins with, behind all of its bytes. -/
def unexpected : Lexer Lexeme := do
  let s ← get
  let c := (← slice s.start s.bytes.size).front?.getD '\uFFFD'
  set { s with pos := s.start + c.utf8Size }
  fail (.strayCharacter c)

/-- The rest of the lexeme that begins with the given byte. -/
def lexemeFrom (b : UInt8) : Lexer (Option Lexeme) := do
  if let some s := single? b then return some ⟨.symbol s, ()⟩
  else if let some (long, short) := either? b then
    return some ⟨.symbol (← either '='.toUInt8 long short), ()⟩
  else if b == '/'.toUInt8 then
    if (← look 0) == '/'.toUInt8 then
      comment
      return none
    else return some ⟨.symbol .slash, ()⟩
  else if isBlankByte b then return none
  else if b == '\n'.toUInt8 then
    modify fun s => { s with line := s.line + 1 }
    return none
  else if b == '"'.toUInt8 then some <$> string
  else if isDigitByte b then some <$> number
  else if isLetterByte b then some <$> identifier
  else some <$> unexpected

/-- Takes a lexeme. -/
def scanToken : Lexer (Option Lexeme) := do
  lexemeFrom (← bump)

/-! ## Progress

Behind the first byte of a lexeme a scanner stays behind it, in the same source, whether a step has
a result or not.
-/

/-- A scanner over the given bytes that is inside of a lexeme. -/
structure Scanner.Inside (bytes : Array UInt8) (first : Nat) (s : Scanner) : Prop where
  source : s.bytes = bytes
  begins : s.start = first
  behind : first < s.pos

/-- The scanner behind a step, whatever became of that. -/
def reached {α : Type} : EStateM.Result Halt Scanner α → Scanner
  | .ok _ s => s
  | .error _ s => s

/-- A step that goes no way back. -/
def Stays {α : Type} (x : Lexer α) : Prop :=
  ∀ ⦃bytes first s⦄, Scanner.Inside bytes first s → (reached (x s)).Inside bytes first

namespace Scanner.Inside

variable {bytes : Array UInt8} {first : Nat} {s : Scanner}

theorem advance (h : s.Inside bytes first) : Inside bytes first { s with pos := s.pos + 1 } :=
  ⟨h.source, h.begins, Nat.lt_succ_of_lt h.behind⟩

theorem skip (k : ByteClass) (h : s.Inside bytes first) : (s.skip k).Inside bytes first := by
  fun_induction Scanner.skip k s with
  | case1 s _ ih => exact ih h.advance
  | case2 s _ => exact h

theorem untilQuote (h : s.Inside bytes first) : s.untilQuote.Inside bytes first := by
  fun_induction Scanner.untilQuote s with
  | case1 s _ => exact h
  | case2 s _ _ => exact h
  | case3 s _ _ _ ih => exact ih ⟨h.source, h.begins, Nat.lt_succ_of_lt h.behind⟩
  | case4 s _ _ _ ih => exact ih h.advance

end Scanner.Inside

namespace Stays

variable {α β : Type} {x : Lexer α}

theorem pure (a : α) : Stays (pure a) :=
  fun _ _ _ h => h

theorem look (offset : Nat) : Stays (look offset) :=
  fun _ _ _ h => h

theorem fail (cause : LexicalFault) : Stays (fail cause : Lexer α) :=
  fun _ _ _ h => h

theorem advance : Stays advance :=
  fun _ _ _ h => h.advance

theorem slice (i j : Nat) : Stays (slice i j) := by
  intro bytes first s h
  simp only [Scan.slice]
  cases Scanner.slice? s.bytes i j <;> exact h

theorem lexeme : Stays lexeme :=
  fun _ _ s h => slice s.start s.pos h

theorem modify {f : Scanner → Scanner}
    (h : ∀ {bytes first s}, Scanner.Inside bytes first s → (f s).Inside bytes first) :
    Stays (modify f) :=
  fun _ _ _ hs => h hs

theorem get_bind {f : Scanner → Lexer β} (h : ∀ s, Stays (f s)) : Stays (get >>= f) :=
  fun _ _ s hs => h s hs

theorem bind {f : α → Lexer β} (h : Stays x) (hf : ∀ a, Stays (f a)) : Stays (x >>= f) := by
  intro bytes first s hs
  have before := h hs
  simp only [Bind.bind, EStateM.bind]
  cases hx : x s with
  | ok a s' =>
      rw [hx] at before
      exact hf a before
  | error e s' =>
      rw [hx] at before
      exact before

theorem map {f : α → β} (h : Stays x) : Stays (f <$> x) :=
  h.bind fun a => .pure (f a)

theorem either (second : UInt8) (long short : Symbol) : Stays (either second long short) := by
  refine .bind (.look 0) fun b => ?_
  split
  · exact .bind .advance fun _ => .pure long
  · exact .pure short

theorem comment : Stays comment := by
  intro bytes first s h
  have before := h.behind
  by_cases inside : s.pos ≤ s.bytes.size
  · rw [Scan.comment, if_pos inside]
    cases s.memchr? '\n'.toUInt8 with
    | none => exact ⟨h.source, h.begins, Nat.lt_of_lt_of_le before inside⟩
    | some offset => exact ⟨h.source, h.begins, Nat.lt_add_right offset before⟩
  · rw [Scan.comment, if_neg inside]
    exact h

theorem string : Stays string := by
  refine .bind (.modify Scanner.Inside.untilQuote) fun _ => .get_bind fun s => ?_
  split
  · exact .fail _
  · exact .bind .advance fun _ => .get_bind fun s => .bind (.slice _ _) fun _ => .pure _

theorem fraction : Stays fraction := by
  refine .bind (.look 0) fun b => .bind (.look 1) fun b' => ?_
  split
  · exact .bind .advance fun _ => .modify (Scanner.Inside.skip digits)
  · exact .pure ()

theorem number : Stays number :=
  .bind (.modify (Scanner.Inside.skip digits)) fun _ => .bind .fraction fun _ =>
    .bind .lexeme fun _ => .pure _

theorem identifier : Stays identifier := by
  refine .bind (.modify (Scanner.Inside.skip wordBytes)) fun _ => .bind .lexeme fun text => ?_
  split
  · exact .pure _
  · exact .pure _

theorem unexpected : Stays unexpected := by
  intro bytes first s h
  have cut := slice s.start s.bytes.size h
  show Scanner.Inside bytes first (reached ((Scan.slice s.start s.bytes.size >>= _) s))
  simp only [Bind.bind, EStateM.bind]
  cases hs : Scan.slice s.start s.bytes.size s with
  | error e s' =>
      rw [hs] at cut
      exact cut
  | ok text s' =>
      refine ⟨h.source, h.begins, ?_⟩
      have size := (text.front?.getD '\uFFFD').utf8Size_pos
      rw [← h.begins]
      exact Nat.lt_add_of_pos_right size

theorem lexemeFrom (b : UInt8) : Stays (lexemeFrom b) := by
  unfold Scan.lexemeFrom
  split
  · exact .pure _
  split
  · exact .bind (.either _ _ _) fun _ => .pure _
  split
  · refine .bind (.look 0) fun _ => ?_
    split
    · exact .bind .comment fun _ => .pure _
    · exact .pure _
  split
  · exact .pure _
  split
  · exact .bind (.modify fun h => ⟨h.source, h.begins, h.behind⟩) fun _ => .pure _
  split
  · exact .map .string
  split
  · exact .map .number
  split
  · exact .map .identifier
  · exact .map .unexpected

end Stays

/-- The first byte is taken before it is looked into. -/
theorem scanToken_eq (s : Scanner) :
    scanToken s = lexemeFrom (s.look 0) { s with pos := s.pos + 1 } :=
  rfl

/-- A lexeme takes at least a byte. -/
theorem inside_scanToken (s : Scanner) :
    (reached (scanToken { s with start := s.pos })).Inside s.bytes s.pos := by
  have inside : Scanner.Inside s.bytes s.pos { s with start := s.pos, pos := s.pos + 1 } :=
    ⟨rfl, rfl, Nat.lt_succ_self s.pos⟩
  exact Stays.lexemeFrom (s.look 0) inside

end Lox.Scan
