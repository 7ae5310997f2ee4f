import Lox.Proofs.ForLoop.Resolution
import Lox.Proofs.Likeness.Runs

/-!
# A loop and its tree side by side

A run of a loop as it is written and a run of its tree do the same, frame by frame, but for the
frames of the block around the body and the increment.

* `ForLoop.repeats_eq` — the rounds of a loop are those of a `while` loop.
* `ForLoop.Like` — a loop whose parts mean the same as those of another one, inside the scopes of
  its tree.
* `ForLoop.exec_like` — **the run of the loop and that of the tree end alike.**
-/

namespace Lox

namespace ForLoop

/-! ## Rounds

One round of the loop, as a body that a `while` loop could have. -/

section
variable (apply : Apply) (limit : Nat) (f : ForLoop)

/-- The body, and the increment if the body ends normally. -/
def once : Eval Flow := do
  match ← f.body.exec apply limit with
  | .normal =>
    let _ ← Expr.evalOption apply f.increment
    return .normal
  | .returned value line => return .returned value line

/-- The rounds of a loop are those of a `while` loop. -/
theorem repeats_eq (rounds : Nat) :
    f.repeats apply limit rounds =
      repeatWhile (f.test apply) (f.once apply limit) rounds := by
  induction rounds with
  | zero => rfl
  | succ rounds ih =>
      simp only [repeats, repeatWhile, once, bind_assoc, ih]
      congr 1
      funext value
      cases value.isTruthy with
      | false => rfl
      | true =>
          simp only [if_true]
          congr 1
          funext flow
          cases flow with
          | normal => simp only [bind_assoc, pure_bind]
          | returned => simp only [pure_bind]

end

/-! ## Levels

The tree has the scopes of the loop, and in each round one more that is empty. -/

section
variable (f : ForLoop) (outer : List Level)

/-- The scopes around the condition, of the loop and of its tree. -/
def levels : List Level :=
  match f.initializer with
  | some _ => .shared false :: outer
  | none => outer

/-- The scopes around the body and the increment. -/
def roundLevels : List Level :=
  match f.increment with
  | some _ => .extra :: f.levels outer
  | none => f.levels outer

/-- A loop whose parts mean the same as those of another one, inside the scopes that the tree of
that one has. -/
structure Like (L : Likeness) (f' : ForLoop) : Prop where
  initializer : Option.Rel (Stmt.Like L (.shared false :: outer)) f.initializer f'.initializer
  condition : Expr.LikeOption L (f.levels outer) f.condition f'.condition
  body : f.body.Like L (f.roundLevels outer) f'.body
  increment : Expr.LikeOption L (f.roundLevels outer) f.increment f'.increment

end

/-! ## Runs

Side by side, with one frame more on the side of the tree for each round. -/

section
variable {L : Likeness} {w : World} {outer : List Level} {apply apply' : Apply} {f f' : ForLoop}
  {m m' : Machine} (happly : Apply.Like L apply apply') (like : f.Like outer L f')
include happly like

/-- Both conditions have values that correspond; a loop without one has a condition that is
`true`. -/
theorem test_like (h : Machine.Alike L w (f.levels outer) m m') :
    Eval.Like L (f.levels outer) w (f.test apply)
      ((f'.condition.getD (.literal (.bool true))).eval apply') m m' (Value.Like L) := by
  unfold test
  cases hc : f.condition with
  | none =>
      cases hc' : f'.condition with
      | none => exact .pure h (.bool true)
      | some _ => cases hc ▸ hc' ▸ like.condition
  | some condition =>
      cases hc' : f'.condition with
      | none => cases hc ▸ hc' ▸ like.condition
      | some condition' =>
          cases hc ▸ hc' ▸ like.condition with
          | some he => exact Expr.eval_like happly he h

/-- The block around the body and the increment is that of extra braces. -/
theorem once_like (braces : L.braces = true) (limit : Nat)
    (h : Machine.Alike L w (f.levels outer) m m') :
    Eval.Like L (f.levels outer) w (f.once apply limit) (f'.round.exec apply' limit) m m'
      (Flow.Like L) := by
  have body := like.body
  have increment := like.increment
  unfold roundLevels at body increment
  unfold once round
  cases hi : f.increment with
  | none =>
      cases hi' : f'.increment with
      | some _ => cases hi ▸ hi' ▸ increment
      | none =>
          rw [hi] at body
          rw [← bind_pure (f'.body.exec apply' limit)]
          refine (Stmt.exec_like happly limit body h).bind fun _ _ _ _ _ _ h hflow => ?_
          cases hflow with
          | normal => exact .pure h .normal
          | returned hv lines => exact .pure h (.returned hv lines)
  | some e =>
      cases hi' : f'.increment with
      | none => cases hi ▸ hi' ▸ increment
      | some e' =>
          rw [hi] at body
          rw [hi, hi'] at increment
          refine Eval.Like.inBraces h braces fun h => ?_
          refine (Stmt.exec_like happly limit body h).bind fun _ _ _ _ _ _ h hflow => ?_
          cases hflow with
          | normal =>
              rw [Stmt.execAll_singleton]
              exact (Expr.evalOption_like happly increment h).bind fun _ _ _ _ _ _ h _ =>
                .pure h .normal
          | returned hv lines => exact .pure h (.returned hv lines)

theorem rounds_like (braces : L.braces = true) (limit : Nat)
    (h : Machine.Alike L w (f.levels outer) m m') :
    Eval.Like L (f.levels outer) w (f.repeats apply limit limit) (f'.rounds.exec apply' limit)
      m m' (Flow.Like L) := by
  rw [repeats_eq]
  exact repeatWhile_like (test_like happly like) (once_like happly like braces limit) limit h

/-- **The run of a loop and that of the tree end alike**: with what means the same, or for the same
reason, with the same text printed. -/
theorem exec_like (braces : L.braces = true) (limit : Nat) (h : Machine.Alike L w outer m m') :
    Eval.Like L outer w (f.exec apply limit) (f'.tree.exec apply' limit) m m' (Flow.Like L) := by
  have initializer := like.initializer
  have rounds {w : World} {m m' : Machine} (h : Machine.Alike L w (f.levels outer) m m') :=
    rounds_like happly like braces limit h
  unfold levels at rounds
  unfold exec
  rw [tree_eq]
  cases hi : f.initializer with
  | none =>
      cases hi' : f'.initializer with
      | some _ => cases hi ▸ hi' ▸ initializer
      | none =>
          rw [hi] at rounds
          exact rounds h
  | some clause =>
      cases hi' : f'.initializer with
      | none => cases hi ▸ hi' ▸ initializer
      | some clause' =>
          rw [hi] at rounds
          cases hi ▸ hi' ▸ initializer with
          | some hs =>
              refine Eval.Like.inScope h h.chain
                fun _ _ (h : Machine.Alike L _ (.shared false :: outer) _ _) => ?_
              refine (Stmt.exec_like happly limit hs h).bind fun _ _ _ _ _ _ h hflow => ?_
              cases hflow with
              | normal =>
                  rw [Stmt.execAll_singleton]
                  exact rounds h
              | returned hv lines => exact .pure h (.returned hv lines)

end

end ForLoop

end Lox
