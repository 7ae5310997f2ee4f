import Lox.Proofs.Evaluation.Course
import Lox.Proofs.Evaluation.Restores
import Lox.Proofs.ForLoop.Direct

/-!
# One scope for all rounds

What an evaluation comes to without entering a call is evaluated inside of the environment it began
in.  So all rounds of a loop, and all functions that are made in them, have the one frame of the
loop around them.

An evaluation comes to its parts either in the environment it is in or in a new scope inside of it;
only a call is evaluated elsewhere, and it has a smaller bound than all that is evaluated around it.

* `Moment.Reaches.enclosed` — an evaluation stays inside of its environment.
* `ForLoop.frame_shared` — the frame of a loop is around all that the loop comes to.
-/

namespace Lox

namespace Moment

variable {p q : Moment}

/-- No part of an evaluation has a larger bound. -/
theorem Next.bound_le (h : p.Next q) : q.bound ≤ p.bound := by
  cases h with
  | body => exact Nat.le_succ _
  | _ => exact Nat.le_refl _

/-- What an evaluation goes on to in the same call is inside of its environment. -/
theorem Next.enclosed (h : p.Next q) (same : q.bound = p.bound) :
    p.machine.env.frames <:+ q.machine.env.frames := by
  have eval {b : Nat} {e : Expr} {m n : Machine} {v : Value}
      (he : e.eval (Callable.apply b) m = .ok v n) : n.env = m.env :=
    ((evaluate_restores b e).of_ok he).env
  have exec {b : Nat} {s : Stmt} {m n : Machine} {flow : Flow}
      (hs : s.exec (Callable.apply b) b m = .ok flow n) : n.env = m.env :=
    ((execute_restores b s).of_ok hs).env
  cases h with
  | right he | logicalRight he | write he | arguments he | setValue he | otherExpressions he
  | yes he | no he | loopBody he => exact (eval he) ▸ List.suffix_refl _
  | call hf has =>
      have env := ((Expr.evalAll_restores _ _).of_ok has).env.trans (eval hf)
      exact env ▸ List.suffix_refl _
  | loopAgain he _ hs =>
      have env := (exec hs).trans (eval he)
      exact env ▸ List.suffix_refl _
  | otherStatements hs => exact (exec hs) ▸ List.suffix_refl _
  | block => exact List.suffix_cons _ _
  | body => exact absurd same (Nat.ne_of_lt (Nat.lt_succ_self _))
  | _ => exact List.suffix_refl _

theorem Reaches.bound_le (h : p.Reaches q) : q.bound ≤ p.bound := by
  induction h with
  | refl => exact Nat.le_refl _
  | tail _ step ih => exact Nat.le_trans step.bound_le ih

/-- **What an evaluation comes to in the same call is inside of its environment.** -/
theorem Reaches.enclosed (h : p.Reaches q) (same : q.bound = p.bound) :
    p.machine.env.frames <:+ q.machine.env.frames := by
  induction h with
  | refl => exact List.suffix_refl _
  | tail run step ih =>
      have between := Nat.le_antisymm (Reaches.bound_le run) (same ▸ step.bound_le)
      exact (ih between).trans (step.enclosed (same.trans between.symm))

end Moment

/-- **The frame of a loop is around all that the loop comes to** in the same call: all rounds, and
all functions that are made in them. -/
theorem ForLoop.frame_shared {f : ForLoop} {b : Nat} {m : Machine} {q : Moment}
    (own : f.initializer ≠ none) (run : Moment.Reaches ⟨b, .statement f.tree, m⟩ q)
    (same : q.bound = b) : q = ⟨b, .statement f.tree, m⟩ ∨
      (m.env.push m.frames.next).frames <:+ q.machine.env.frames := by
  obtain ⟨clause, hi⟩ := Option.ne_none_iff_exists'.1 own
  rw [tree_eq, hi] at run ⊢
  rcases run.cases_head with rfl | ⟨r, step, rest⟩
  · exact .inl rfl
  · cases step with
    | block => exact .inr (Moment.Reaches.enclosed rest same)

end Lox
