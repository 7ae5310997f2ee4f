import Lox.Parse
import Lox.Proofs.State

/-!
# Reading a list that ends

What is still to be read is at hand as a list, none of which is an end token; of the end only the
line is left.  Everything about the grammar is proved for this reader, on which most rules are read
off the list by cases.

* `Cursor`, `Rule` — a reader of tokens up to the end, and the rules that read from it.
* `nextStatement`, `afterFault` — where reading goes on after a fault.
* `start` — what of a list of tokens is read: its part before the first end token.
* `ifNext` — a rule that depends on the kind of the token ahead.
* `statementOf_eq`, `declared_eq` — statements and declarations are such rules; on a cursor it makes
  no difference whether a rule looks for the end.
-/

namespace Lox.Parse

/-- What a parse has still to read and what it has met so far. -/
structure Cursor where
  /-- The tokens ahead. -/
  rest : List Token
  /-- The line of the end. -/
  endLine : Nat
  /-- The identity of the next access to a variable. -/
  nextNode : NodeId
  /-- The faults recorded so far, in order. -/
  faults : Array Fault := #[]

/-- A grammar rule that reads from a cursor. -/
abbrev Rule := Parser Cursor

/-- What is left after a token of kind `last` once recovery has found where to go on. -/
def nextStatement (last : Kind) : List Token → List Token
  | [] => []
  | t :: rest =>
    if last = .symbol .semicolon ∨ opensStatement t.kind then t :: rest
    else nextStatement t.kind rest

/-- What is left after a fault. -/
def afterFault : List Token → List Token
  | [] => []
  | t :: rest => nextStatement t.kind rest

namespace Cursor

/-- The token ahead, or one for the end. -/
def seen (c : Cursor) : Token :=
  match c.rest with
  | t :: _ => t
  | [] => ⟨.eof, "", c.endLine, ()⟩

/-- The kind of the token ahead. -/
def kind? (c : Cursor) : Option Kind :=
  c.rest.head?.map Token.kind

instance : Reader Cursor where
  atEnd c := c.rest.isEmpty
  seen := seen
  advance c := { c with rest := c.rest.tail }
  mint c := (c.nextNode, { c with nextNode := c.nextNode + 1 })
  recover fault c := { c with rest := afterFault c.rest, faults := c.faults.push fault }

end Cursor

/-! ## The part of a list that is read -/

/-- Whether a token does not end the program. -/
def isInner (t : Token) : Bool :=
  t.kind != .eof

/-- The line of the end of a list of tokens: that of the first end token, else that of the last
token; zero for the empty list, where nothing is asked of it. -/
def endLine (tokens : List Token) : Nat :=
  match tokens.dropWhile isInner with
  | t :: _ => t.line
  | [] => (tokens.getLast?.map Token.line).getD 0

/-- The cursor before a list of tokens. -/
def start (tokens : List Token) (nextNode : NodeId) : Cursor :=
  ⟨tokens.takeWhile isInner, endLine tokens, nextNode, #[]⟩

/-! ## Steps on a cursor

Each step by cases on the tokens ahead, for proofs that follow a reading token by token. -/

section
variable {c : Cursor} {t : Token} {rest : List Token} {kinds : List Kind}

theorem acceptAny_nil (h : c.rest = []) : acceptAny kinds c = .ok none c := by
  simp only [acceptAny, Reader.atEnd, h, List.isEmpty_nil, if_true]

/-- A token that is ahead is taken if it is one of the kinds, and left if it is not. -/
theorem acceptAny_cons (h : c.rest = t :: rest) : acceptAny kinds c =
    if t.kind ∈ kinds then .ok (some t) { c with rest } else .ok none c := by
  simp only [acceptAny, takeAny, Reader.atEnd, Reader.seen, Reader.advance, Cursor.seen, h,
    List.isEmpty_cons, Bool.false_eq_true, if_false, List.tail_cons]

/-- What stands for the end is taken for no token, so a look for it changes nothing. -/
theorem takeAny_eq (h : .eof ∉ kinds) : (takeAny kinds : Rule _) = acceptAny kinds := by
  funext c
  cases hc : c.rest with
  | nil =>
      rw [acceptAny_nil hc]
      simp only [takeAny, Reader.seen, Cursor.seen, hc, h, if_false]
  | cons t rest =>
      rw [acceptAny_cons hc]
      simp only [takeAny, Reader.seen, Cursor.seen, Reader.advance, hc, List.tail_cons]

theorem take_keyword (k : Keyword) : (take (.keyword k) : Rule _) = accept (.keyword k) :=
  takeAny_eq (by simp)

theorem take_symbol (s : Symbol) : (take (.symbol s) : Rule _) = accept (.symbol s) :=
  takeAny_eq (by simp)

theorem acceptLiteral_nil (h : c.rest = []) : acceptLiteral c = .ok none c := by
  rw [acceptLiteral, takeAny_eq (by simp), bind_ok (acceptAny_nil h)]
  exact bind_ok (acceptAny_nil h)

/-- A token that is ahead is taken if it is a constant, and stands for its value. -/
theorem acceptLiteral_cons (h : c.rest = t :: rest) : acceptLiteral c =
    match Literal.ofToken? t with
    | some value => .ok (some value) { c with rest }
    | none => .ok none c := by
  rw [acceptLiteral, takeAny_eq (by simp)]
  by_cases hword : t.kind ∈ [Kind.keyword .false, .keyword .true, .keyword .nil]
  · rw [bind_ok ((acceptAny_cons h).trans (if_pos hword))]
    obtain ⟨kind, lexeme, tokenLine, payload⟩ := t
    simp only [List.mem_cons, List.not_mem_nil, or_false] at hword
    rcases hword with rfl | rfl | rfl <;> rfl
  · refine (bind_ok ((acceptAny_cons h).trans (if_neg hword))).trans ?_
    by_cases hvalue : t.kind ∈ [Kind.number, .string]
    · refine (bind_ok ((acceptAny_cons h).trans (if_pos hvalue))).trans ?_
      obtain ⟨kind, lexeme, tokenLine, payload⟩ := t
      simp only [List.mem_cons, List.not_mem_nil, or_false] at hvalue
      rcases hvalue with rfl | rfl <;> rfl
    · refine (bind_ok ((acceptAny_cons h).trans (if_neg hvalue))).trans ?_
      have none : Literal.ofToken? t = none := by
        unfold Literal.ofToken?
        split <;> simp_all
      rw [none]
      rfl

end

/-- A rule that goes on with a token of the kind if there is one ahead, and in another way if there
is none. -/
def ifNext {α : Type} (kind : Kind) (yes : Token → Rule α) (no : Rule α) : Rule α := do
  if let some t ← accept kind then yes t else no

/-- A statement is read by its first token: six of them have a rule of their own, and all others
begin an expression. -/
theorem statementOf_eq (statement : Rule Stmt) (declaration : Rule (Option Stmt)) (bound : Nat) :
    statementOf statement declaration bound =
      ifNext (.keyword .for_) (fun _ => counting statement bound)
        (ifNext (.keyword .if_) (fun _ => branching statement bound)
          (ifNext (.keyword .while_) (fun _ => looping statement bound)
            (ifNext (.keyword .return_) (returned bound)
              (ifNext (.keyword .print) (fun _ => printed bound)
                (ifNext (.symbol .leftBrace) (fun _ => .block <$> block declaration bound)
                  (expressionStatement bound)))))) := by
  simp only [statementOf, take_keyword, take_symbol]
  rfl

/-- A declaration is a class, a function or a variable by its first token, and else a statement. -/
theorem declared_eq (statement : Rule Stmt) (declaration : Rule (Option Stmt)) (bound : Nat) :
    declared statement declaration bound =
      ifNext (.keyword .class_) (fun _ => classDeclared)
        (ifNext (.keyword .fun_) (fun _ => functionDeclared declaration bound)
          (ifNext (.keyword .var) (fun _ => variableDeclared bound)
            (statementOf statement declaration bound))) := by
  simp only [declared, take_keyword]
  rfl

end Lox.Parse
