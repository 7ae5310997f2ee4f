import Lox.Proofs.Likeness.Runs
import Lox.Session

/-!
# Sessions side by side

Programs that mean the same, run in new sessions, print the same and come to the same end; a failure
may differ in its line and in the name of an access.

Nothing was made yet, so machines on which nothing has run are alike whatever the programs are; from
there on the runs of the two programs take care of themselves.

* `Machine.alike_initial` — machines on which nothing has run.
* `Outcome.Like` — the ends that two programs come to.
* `Session.perform_like` — steps that end alike, each taken in its session.
-/

namespace Lox

variable {L : Likeness}

/-- Machines on which nothing has run are alike, each with the table of its program. -/
theorem Machine.alike_initial (clock : Nat → Float) (sink : Sink) :
    Machine.Alike L [(0, false)] [] { Machine.initial clock sink with distances := L.left }
      { Machine.initial clock sink with distances := L.right } where
  chain := .globals rfl
  machine := {
    left := rfl
    right := rfl
    globals := rfl
    frames := {
      size := rfl
      range := by simp [Machine.initial]
      nodup := by simp
      bindings := by
        intro f f' renamed h
        obtain ⟨rfl, rfl, rfl⟩ : f = 0 ∧ f' = 0 ∧ renamed = false := by
          cases f <;> simp_all
        exact Bindings.Like.nil.insert "clock" (.callable 0 (.host .clock))
      aligned := by
        intro _
        refine ⟨rfl, fun f f' renamed h => ?_⟩
        cases f <;> simp_all }
    objects := rfl
    fields := fun i => by
      have empty : (Machine.initial clock sink).objects[i]?.getD [] = [] := Machine.fields_initial i
      rw [empty]
      exact .nil
    callables := rfl
    depth := rfl
    sink := rfl
    clock := rfl
    readings := rfl }

/-- The ends that two programs come to: the same, but for what failures may differ in. -/
inductive Outcome.Like (L : Likeness) : Outcome Unit → Outcome Unit → Prop
  | done : Like L (.done ()) (.done ())
  | exhausted : Like L .exhausted .exhausted
  | failed {d d' : Diagnostic} (h : Stop.Like L (.failed d) (.failed d')) :
      Like L (.failed [d]) (.failed [d'])

/-- Steps that end alike, each taken in its session. -/
theorem Session.perform_like {levels : List Level} {w : World} {step step' : Eval Unit}
    {m m' : Machine} {Q : World → Unit → Unit → Prop} (next next' : NodeId)
    (h : Eval.Like L levels w step step' m m' Q) :
    Outcome.Like L (perform step ⟨m, next⟩).1 (perform step' ⟨m', next'⟩).1 ∧
      ∃ w', Machine.Like L w' (perform step ⟨m, next⟩).2.machine
        (perform step' ⟨m', next'⟩).2.machine := by
  unfold Eval.Like at h
  simp only [perform]
  split at h
  next hs hs' =>
    obtain ⟨w', leads, -⟩ := h
    rw [hs, hs']
    exact ⟨.done, w', leads.alike.machine⟩
  next stop n stop' n' hs hs' =>
    obtain ⟨w', leads, hstop⟩ := h
    rw [hs, hs']
    have machine := leads.alike.machine
    cases hstop with
    | exhausted => exact ⟨.exhausted, w', machine⟩
    | runtime lines named => exact ⟨.failed (.runtime lines named), w', machine⟩
    | output fault => exact ⟨.failed (.output fault), w', machine⟩
    | undefined access => exact ⟨.failed (.undefined access), w', machine⟩
  next => exact h.elim

end Lox
