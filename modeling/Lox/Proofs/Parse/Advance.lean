import Lox.Proofs.Parse.Induction

/-!
# The cursor only moves on

Every rule of the grammar advances (`Rule.Advances`): whether it succeeds or fails, the tokens it
leaves are a later part of those it began with, the identities it gave out are used up, and the
faults recorded before it are still there.

The three facts are one relation between cursors, which is reflexive and transitive.  So they need
only be shown of the steps of a cursor; that rules inherit them from their parts is one induction,
which is shared with all other such relations.

* `Rule.advancing` — each step of a cursor does, and recovery.
* `Advances.statement_declaration` — so do statements and declarations.
* `Advances.program` — and whole programs.
-/

namespace Lox.Parse

variable {α : Type}

/-- A rule that never goes back. -/
def Rule.Advances (rule : Rule α) : Prop :=
  rule.Keeps Cursor.Before

/-- A step takes the token ahead, if there is one. -/
theorem Cursor.Before.advance (c : Cursor) : c.Before (Reader.advance c) :=
  ⟨List.tail_suffix c.rest, rfl, Nat.le_refl _, List.prefix_refl _⟩

/-- An identity that is given out is used up. -/
theorem Cursor.Before.mint (c : Cursor) : c.Before (Reader.mint c).2 :=
  ⟨List.suffix_refl _, rfl, Nat.le_succ _, List.prefix_refl _⟩

/-- Recovery records the fault behind the others and goes on further ahead. -/
theorem Cursor.Before.recover (fault : Fault) (c : Cursor) : c.Before (Reader.recover fault c) :=
  ⟨afterFault_suffix c.rest, rfl, Nat.le_refl _, by simp [Reader.recover]⟩

/-- No step of a cursor goes back, and recovery does not. -/
theorem Rule.advancing : Parser.Recovering (σ := Cursor) Rule.Advances :=
  Reader.Moves.recovering ⟨.refl, .trans, .advance, .mint⟩ .recover

namespace Rule.Advances

/-- What a rule leaves, if it succeeds, is later. -/
theorem of_ok {rule : Rule α} (h : rule.Advances) {c d : Cursor} {a : α}
    (hc : rule c = .ok a d) : c.Before d :=
  Parser.Keeps.of_ok h hc

/-- And if it fails. -/
theorem of_error {rule : Rule α} (h : rule.Advances) {c d : Cursor} {fault : Fault}
    (hc : rule c = .error fault d) : c.Before d :=
  Parser.Keeps.of_error h hc

theorem accept {kind : Kind} : Rule.Advances (accept kind) :=
  advancing.accept kind

theorem declarations {declaration : Rule (Option Stmt)} (h : declaration.Advances)
    (braced : Bool) (bound : Nat) : Rule.Advances (declarations declaration braced bound) :=
  advancing.declarations h braced bound

theorem declared {statement : Rule Stmt} {declaration : Rule (Option Stmt)}
    (hs : statement.Advances) (hd : declaration.Advances) (bound : Nat) :
    Rule.Advances (declared statement declaration bound) :=
  advancing.declared hs hd bound

/-- **Statements and declarations advance**, with any bound. -/
theorem statement_declaration (bound : Nat) :
    Rule.Advances (statement bound) ∧ Rule.Advances (declaration bound) :=
  advancing.statement_declaration bound

theorem program (bound : Nat) : Rule.Advances (program bound) :=
  advancing.program bound

end Rule.Advances

end Lox.Parse
