import Lox.Scan.Lexeme

/-!
# Scanning a source

The scan of a source is the list of its tokens and lexical faults in the order of the text, closed
by one end token.  Every item carries the line the scan has come to, which is one more than the
number of line feeds up to that point: a string of several lines has the line of its closing
quote, an unterminated one the last line.

* `Scan.Item` — a token or a fault.
* `Scan.Scanner.next?` — the next item, if there is one left.
* `scan` — the items of a source.
* `Scan.tokens`, `Scan.faults` — the two kinds of items apart.
-/

namespace Lox

namespace Scan

/-- What a scan yields. -/
inductive Item where
  | token (t : Token)
  | fault (line : Nat) (cause : LexicalFault)

namespace Item

/-- The token of an item that is one. -/
def token? : Item → Option Token
  | token t => some t
  | fault .. => none

/-- The report on an item that is a fault. -/
def diagnostic? : Item → Option Diagnostic
  | token _ => none
  | fault line cause => some (.lexical line cause)

/-- The line of an item. -/
def line : Item → Nat
  | token t => t.line
  | fault line _ => line

end Item

namespace Scanner

/-- **The answer to a call for the next item**, none if there is none left, and the scanner behind
it.  There is no answer at all where the scan crashes. -/
def next? (s : Scanner) : Option (Option Item × Scanner) :=
  if s.done then some (none, s)
  else if s.atEnd then some (some (.token ⟨.eof, "", s.line, ()⟩), { s with done := true })
  else
    match _h : scanToken { s with start := s.pos } with
    | .ok (some ⟨kind, payload⟩) s' =>
      (slice? s'.bytes s'.start s'.pos).map fun text =>
        (some (.token ⟨kind, text, s'.line, payload⟩), s')
    | .ok none s' => next? s'
    | .error (.fault line cause) s' => some (some (.fault line cause), s')
    | .error .crash _ => none
termination_by s.bytes.size - s.pos
decreasing_by
  rename_i more
  have inside : (reached (.ok none s')).Inside s.bytes s.pos := _h ▸ inside_scanToken s
  have lt := not_atEnd_iff.1 more
  have behind : s.pos < s'.pos := inside.behind
  rw [show s'.bytes = s.bytes from inside.source]
  omega

/-- An upper bound on the number of items that are still to come. -/
def ahead (s : Scanner) : Nat :=
  if s.done then 0 else s.bytes.size - s.pos + 1

theorem ahead_lt {s s' : Scanner} (begun : s.done = false) (more : s.pos < s.bytes.size)
    (inside : s'.Inside s.bytes s.pos) : s'.ahead < s.ahead := by
  have behind := inside.behind
  simp only [ahead, begun, inside.source, Bool.false_eq_true, if_false]
  split <;> omega

theorem ahead_next? {s s' : Scanner} {item : Item} (h : s.next? = some (some item, s')) :
    s'.ahead < s.ahead := by
  fun_induction next? s with
  | case1 s ended => simp at h
  | case2 s begun _ =>
      obtain ⟨-, rfl⟩ := by simpa using h
      simp [ahead, begun]
  | case3 s begun more kind payload s'' taken =>
      have inside : (reached (.ok (some (⟨kind, payload⟩ : Lexeme)) s'')).Inside s.bytes s.pos :=
        taken ▸ inside_scanToken s
      obtain ⟨text, -, -, rfl⟩ := by simpa using h
      exact ahead_lt (by simpa using begun) (not_atEnd_iff.1 more) inside
  | case4 s begun more s'' taken ih =>
      have inside : (reached (.ok none s'')).Inside s.bytes s.pos := taken ▸ inside_scanToken s
      exact Nat.lt_trans (ih h) (ahead_lt (by simpa using begun) (not_atEnd_iff.1 more) inside)
  | case5 s begun more line cause s'' taken =>
      have inside : (reached (.error (.fault line cause) s'')).Inside s.bytes s.pos :=
        taken ▸ inside_scanToken s
      obtain ⟨-, rfl⟩ := by simpa using h
      exact ahead_lt (by simpa using begun) (not_atEnd_iff.1 more) inside
  | case6 s begun more s'' taken => cases h

/-- The items that are still to come, the end token last; nothing if the scan crashes. -/
def items? (s : Scanner) : Option (List Item) :=
  match _h : s.next? with
  | none => none
  | some (none, _) => some []
  | some (some item, s') => (item :: ·) <$> items? s'
termination_by s.ahead
decreasing_by exact ahead_next? _h

end Scanner

/-- The tokens of a scan. -/
def tokens (items : List Item) : List Token :=
  items.filterMap Item.token?

/-- The faults of a scan, as reported. -/
def faults (items : List Item) : List Diagnostic :=
  items.filterMap Item.diagnostic?

end Scan

/-- **The scan of a source.**  No scan crashes. -/
def scan (source : String) : List Scan.Item :=
  (Scan.Scanner.ofSource source).items?.getD []

end Lox
