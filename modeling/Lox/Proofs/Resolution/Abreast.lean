import Lox.Proofs.Resolution.Scopes

/-!
# Two walks abreast

Two walks that look at the same names agree on what is refused, even where the names are found at
other distances.

Whether the walk refuses a program depends on the names that are declared twice in one scope, read
in their own initializer, or returned from outside a function.  None of that depends on where an
access leads.

* `Resolution.Both` — two walks fail for the same fault, or both succeed.
* `Both.bind`, `Both.append` — so do walks that are put together.
* `Expr.resolve_both` — expressions, in scopes where the same names are pending.
-/

namespace Lox

open Resolution

namespace Resolution

/-- Two walks fail for the same fault, or both succeed with results that correspond. -/
inductive Both {α β : Type} (R : α → β → Prop) : Except Fault α → Except Fault β → Prop
  | fails (fault : Fault) : Both R (.error fault) (.error fault)
  | passes {a : α} {b : β} (h : R a b) : Both R (.ok a) (.ok b)

namespace Both

variable {α β γ δ : Type} {R : α → β → Prop} {x : Except Fault α} {y : Except Fault β}

theorem same (x : Except Fault α) : Both (· = ·) x x := by
  cases x with
  | error fault => exact .fails fault
  | ok a => exact .passes rfl

/-- Both walks fail for a fault, or neither does. -/
theorem error_iff (h : Both R x y) (fault : Fault) : x = .error fault ↔ y = .error fault := by
  cases h with
  | fails found => simp
  | passes _ => simp

theorem ok_left {b : β} (h : Both R x y) (hy : y = .ok b) : ∃ a, x = .ok a ∧ R a b := by
  cases h with
  | fails fault => cases hy
  | passes h =>
      cases hy
      exact ⟨_, rfl, h⟩

theorem ok_right {a : α} (h : Both R x y) (hx : x = .ok a) : ∃ b, y = .ok b ∧ R a b := by
  cases h with
  | fails fault => cases hx
  | passes h =>
      cases hx
      exact ⟨_, rfl, h⟩

theorem and_left {P : α → Prop} (h : Both R x y) (hx : ∀ a, x = .ok a → P a) :
    Both (fun a b => R a b ∧ P a) x y := by
  cases h with
  | fails fault => exact .fails fault
  | passes h => exact .passes ⟨h, hx _ rfl⟩

/-- Two walks stay abreast if they go on abreast from results that correspond. -/
theorem bind {S : γ → δ → Prop} {f : α → Except Fault γ} {g : β → Except Fault δ} (h : Both R x y)
    (hf : ∀ a b, R a b → Both S (f a) (g b)) : Both S (x >>= f) (y >>= g) := by
  cases h with
  | fails fault => exact .fails fault
  | passes h => exact hf _ _ h

/-- Entries that are not looked at. -/
theorem append {es fs : Except Fault (List Entry)} {es' fs' : Except Fault (List Entry)}
    (h : Both (fun _ _ => True) es es') (h' : Both (fun _ _ => True) fs fs') :
    Both (fun _ _ => True) (do let first ← es; return first ++ (← fs))
      (do let first ← es'; return first ++ (← fs')) :=
  h.bind fun _ _ _ => h'.bind fun _ _ _ => .passes trivial

end Both

end Resolution

/-! ## Expressions

The one fault of an expression is to read a name that is pending, so scopes in which the same names
are pending refuse the same expressions. -/

section
variable {own? : Option String} {scopes scopes' : Scopes}

mutual

/-- Only what is pending matters for whether an expression is refused. -/
theorem Expr.resolve_both (pending : ∀ x, scopes'.isPending x = scopes.isPending x) : ∀ e : Expr,
    Both (fun _ _ => True) (e.resolve own? scopes) (e.resolve own? scopes')
  | .literal _ => .passes trivial
  | .group inner => Expr.resolve_both pending inner
  | .unary _ operand => Expr.resolve_both pending operand
  | .binary left _ right | .logical left _ right =>
      .append (Expr.resolve_both pending left) (Expr.resolve_both pending right)
  | .read id name => by
      simp only [Expr.resolve, pending]
      split
      · exact .fails _
      · exact .passes trivial
  | .assign _ _ value => (Expr.resolve_both pending value).bind fun _ _ _ => .passes trivial
  | .call callee _ arguments =>
      .append (Expr.resolve_both pending callee) (Expr.resolveAll_both pending arguments)
  | .get object _ => Expr.resolve_both pending object
  | .set object _ value =>
      .append (Expr.resolve_both pending value) (Expr.resolve_both pending object)

theorem Expr.resolveAll_both (pending : ∀ x, scopes'.isPending x = scopes.isPending x) :
    ∀ es : List Expr, Both (fun _ _ => True) (Expr.resolveAll own? scopes es)
      (Expr.resolveAll own? scopes' es)
  | [] => .passes trivial
  | e :: es => .append (Expr.resolve_both pending e) (Expr.resolveAll_both pending es)

end

theorem Expr.resolveOption_both (pending : ∀ x, scopes'.isPending x = scopes.isPending x)
    (e? : Option Expr) : Both (fun _ _ => True) (Expr.resolveOption own? scopes e?)
      (Expr.resolveOption own? scopes' e?) := by
  cases e? with
  | none => exact .passes trivial
  | some e => exact Expr.resolve_both pending e

end

end Lox
