import Lox.Parse.Reader

/-!
# Positions in a list of tokens

A position is an index into the tokens, which may lack an end token or go on after one.  The parse
ends at the first end token or behind the last token.  There is a token in view even behind the
last one: the last one itself.

* `Position` — the reader of a parse.  There is a token to look at, and the index is at most one
  behind the last, so that every token that is looked up exists.
* `Position.recover` — after a fault the token in view is skipped, and then tokens up to the first
  place where a statement can begin: after a semicolon, or before a keyword that opens a statement.
-/

namespace Lox.Parse

/-- The kinds that open a statement wherever they stand. -/
def opensStatement : Kind → Bool
  | .keyword .class_ | .keyword .fun_ | .keyword .var | .keyword .for_ | .keyword .if_
  | .keyword .while_ | .keyword .print | .keyword .return_ => true
  | _ => false

/-- Where a parse is and what it has met so far. -/
structure Position where
  tokens : Array Token
  /-- How many tokens have been taken or skipped. -/
  current : Nat
  /-- The identity of the next access to a variable. -/
  nextNode : NodeId
  /-- The faults recorded so far, in order. -/
  faults : Array Fault
  nonempty : 0 < tokens.size
  bounded : current ≤ tokens.size

namespace Position

/-- The token in view: the next one, or the last one when there is none. -/
def peek (p : Position) : Token :=
  have inside : min p.current (p.tokens.size - 1) < p.tokens.size := by
    have := p.nonempty
    omega
  p.tokens[min p.current (p.tokens.size - 1)]

/-- The token before the next one, or the first one when there is none. -/
def previous (p : Position) : Token :=
  have inside : p.current - 1 < p.tokens.size := by
    have := p.nonempty
    have := p.bounded
    omega
  p.tokens[p.current - 1]

/-- Whether there is no token left to take. -/
def isAtEnd (p : Position) : Bool :=
  decide (p.tokens.size ≤ p.current) || p.peek.kind == .eof

theorem current_lt_of_not_isAtEnd {p : Position} (h : ¬p.isAtEnd = true) :
    p.current < p.tokens.size := by
  simp only [isAtEnd, Bool.or_eq_true, decide_eq_true_eq, not_or, Nat.not_le] at h
  exact h.1

/-- The position behind the token in view; at the end it stays where it is. -/
def advance (p : Position) : Position :=
  if h : p.isAtEnd then p
  else { p with current := p.current + 1, bounded := current_lt_of_not_isAtEnd h }

/-- The first place from here on where a statement can begin. -/
def toStatement (p : Position) : Position :=
  if p.isAtEnd then p
  else if p.previous.kind = .symbol .semicolon ∨ opensStatement p.peek.kind then p
  else p.advance.toStatement
termination_by p.tokens.size - p.current
decreasing_by
  rename_i h _
  have lt := current_lt_of_not_isAtEnd h
  simp only [advance, dif_neg h]
  omega

/-- The position at the next statement, after a fault was recorded. -/
def recover (fault : Fault) (p : Position) : Position :=
  ({ p with faults := p.faults.push fault } : Position).advance.toStatement

instance : Reader Position where
  atEnd := isAtEnd
  seen := peek
  advance := advance
  mint p := (p.nextNode, { p with nextNode := p.nextNode + 1 })
  recover := recover

end Position

end Lox.Parse
