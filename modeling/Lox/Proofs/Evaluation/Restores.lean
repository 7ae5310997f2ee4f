import Lox.Proofs.Evaluation.Induction

/-!
# What a step restores

Scopes and calls change the environment and the number of calls in progress, and there are many
ways out of them: a value, a return, a failure anywhere inside, a line that cannot be printed.  On
every one of them both are what they were before.  Nothing is asked of the tree or of the machine.
Nor does a step ever add to the distances, or fail with the fault of an earlier stage.

The environment and the depth are not restored by what happens to come last; they are restored by
the two operations that change them, `inScope` and `entering`, in all of their ends.  So the proof
has no cases for ways out.  It is enough that these two restore whatever the step inside does, and
that all others leave both alone; the walk over the evaluator is the general one of `Eval.Law`.

* `Eval.left` — the machine that a step leaves, however it ends.
* `Eval.Restores` — a step leaves the environment and the number of calls in progress alone.
* `Eval.Orderly`, `Eval.orderly` — so do all runs, and the distances too; they fail as runs do.
* `Callable.apply_restores`, `execute_restores`, `interpret_restores` — calls, statements and
  programs restore.
-/

namespace Lox

variable {α β : Type}

/-- The machine that a step leaves, however it ends. -/
def Eval.left (step : Eval α) (m : Machine) : Machine :=
  match step m with
  | .ok _ n => n
  | .error _ n => n

/-- Another machine has the same environment and as many calls in progress. -/
structure Machine.Level (m n : Machine) : Prop where
  env : n.env = m.env
  depth : n.depth = m.depth

/-- Both are passed on from one step to the next. -/
theorem Machine.Level.trans {m n k : Machine} (h : m.Level n) (h' : n.Level k) : m.Level k :=
  ⟨h'.env.trans h.env, h'.depth.trans h.depth⟩

/-- A step leaves the environment and the number of calls in progress alone, however it ends. -/
def Eval.Restores (step : Eval α) : Prop :=
  ∀ m : Machine, m.Level (step.left m)

namespace Eval

variable {m n : Machine} {step : Eval α}

theorem left_ok {a : α} (h : step m = .ok a n) : step.left m = n := by
  simp only [left, h]

theorem left_error {stop : Stop} (h : step m = .error stop n) : step.left m = n := by
  simp only [left, h]

/-- A sequence leaves what its second part leaves. -/
theorem left_bind {f : α → Eval β} {a : α} (h : step m = .ok a n) :
    (step >>= f).left m = (f a).left n := by
  simp only [left, bind_ok h]

/-- After a success both are what they were. -/
theorem Restores.of_ok {a : α} (h : Restores step) (hs : step m = .ok a n) : m.Level n :=
  left_ok hs ▸ h m

theorem Restores.of_error {stop : Stop} (h : Restores step) (hs : step m = .error stop n) :
    m.Level n :=
  left_error hs ▸ h m

/-- A relation that a step stays in holds of what it leaves. -/
theorem Moves.left {R : Machine → Machine → Prop} {S : Stop → Prop} (h : Moves R S step)
    (m : Machine) : R m (step.left m) := by
  cases hs : step m with
  | ok a n => exact left_ok hs ▸ h.of_ok hs
  | error stop n => exact left_error hs ▸ (h.of_error hs).1

end Eval

/-! ## All runs

What is proved is a little more than that environment and depth are restored, since the distances
and the kinds of failures are kept by the same argument. -/

/-- Another machine has the same environment, as many calls in progress, and the same distances. -/
structure Machine.Kept (m n : Machine) : Prop extends m.Level n where
  distances : n.distances = m.distances

theorem Machine.Kept.refl (m : Machine) : m.Kept m :=
  ⟨⟨rfl, rfl⟩, rfl⟩

theorem Machine.Kept.trans {m n k : Machine} (h : m.Kept n) (h' : n.Kept k) : m.Kept k :=
  ⟨h.toLevel.trans h'.toLevel, h'.distances.trans h.distances⟩

/-- A step that fails does so with a cause that only runs have. -/
def Stop.OfRun (stop : Stop) : Prop :=
  ∀ d, stop = .failed d → d.isRuntime = true

/-- A step leaves the environment, the number of calls in progress and the distances alone, however
it ends; if it fails, then as runs do. -/
def Eval.Orderly (step : Eval α) : Prop :=
  ∀ m : Machine, match step m with
    | .ok _ n => m.Kept n
    | .error stop n => m.Kept n ∧ stop.OfRun

namespace Eval.Orderly

variable {m n : Machine} {step : Eval α}

theorem of_ok (h : Orderly step) {a : α} (hs : step m = .ok a n) : m.Kept n :=
  Moves.of_ok h hs

/-- What a failure keeps, and which failures there are. -/
theorem of_error (h : Orderly step) {stop : Stop} (hs : step m = .error stop n) :
    m.Kept n ∧ stop.OfRun :=
  Moves.of_error h hs

theorem restores (h : Orderly step) : Restores step :=
  fun m => (Moves.left h m).toLevel

/-- A fault of a run is one of runs. -/
theorem failure_ofRun (line : Nat) (fault : RuntimeFault) : (failure line fault).OfRun :=
  fun _ h => Stop.failed.inj h ▸ rfl

theorem fail (line : Nat) (fault : RuntimeFault) : Orderly (fail line fault : Eval α) :=
  fun m => ⟨.refl m, failure_ofRun line fault⟩

/-- One lemma for each operation, for all walks over the evaluator. -/
theorem law : Law Machine.Kept Stop.OfRun where
  trans h h' := h.trans h'
  unseen _ env depth distances := ⟨⟨env, depth⟩, distances⟩
  rebind _ _ := ⟨⟨rfl, rfl⟩, rfl⟩
  finish {m n} h := by
    refine ⟨⟨h.env, ?_⟩, h.distances⟩
    show n.depth - 1 = m.depth
    rw [h.depth]
    exact Nat.add_sub_cancel m.depth 1
  fails line fault _ := failure_ofRun line fault
  output _ _ h := Stop.failed.inj h ▸ rfl
  exhausted := nofun

/-- A step in another environment comes back to the one before. -/
theorem within (h : Orderly step) (env : Env) : Orderly (within env step) := by
  intro m
  rw [within_eq]
  cases hs : step (m.within env) with
  | ok a n => exact ⟨⟨rfl, (h.of_ok hs).depth⟩, (h.of_ok hs).distances⟩
  | error stop n =>
      obtain ⟨kept, ofRun⟩ := h.of_error hs
      exact ⟨⟨⟨rfl, kept.depth⟩, kept.distances⟩, ofRun⟩

end Eval.Orderly

open Eval

/-- **All runs are orderly.** -/
theorem Eval.orderly : Closed Orderly where
  toPasses := Orderly.law.passes
  define _ _ _ := ⟨⟨rfl, rfl⟩, rfl⟩
  defineCallable _ _ _ := ⟨⟨rfl, rfl⟩, rfl⟩
  inScope h := Moves.inScope (fun kept => ⟨⟨rfl, kept.depth⟩, kept.distances⟩) h

/-- **A program is orderly**, whatever it does. -/
theorem interpret_orderly (bound : Nat) (program : List Stmt) :
    Orderly (interpret bound program) :=
  orderly.interpret (.fail · _) bound program

/-! ## What they restore

The same for each part of the evaluator, as it is used. -/

/-- Expressions one after another. -/
theorem Expr.evalAll_restores (bound : Nat) (es : List Expr) :
    Restores (Expr.evalAll (Callable.apply bound) es) :=
  (Passes.evalAll (Closed.toPasses orderly) (Closed.apply orderly bound) es).restores

theorem bindParameters_restores (parameters : List Token) (arguments : List Value) :
    Restores (bindParameters parameters arguments) :=
  (Closed.bindParameters orderly parameters arguments).restores

theorem Callable.apply_restores (bound : Nat) (c : Callable) (arguments : List Value) (line : Nat) :
    Restores (Callable.apply bound c arguments line) :=
  (Closed.apply orderly bound c arguments line).restores

theorem evaluate_restores (bound : Nat) (e : Expr) : Restores (evaluate bound e) :=
  (Closed.evaluate orderly bound e).restores

theorem execute_restores (bound : Nat) (s : Stmt) : Restores (execute bound s) :=
  (Closed.execute orderly bound s).restores

/-- Statements in another environment. -/
theorem executeIn_restores (bound : Nat) (env : Env) (body : List Stmt) :
    Restores (executeIn bound env body) :=
  (Closed.executeIn orderly (fun env h => h.within env) bound env body).restores

theorem interpret_restores (bound : Nat) (program : List Stmt) :
    Restores (interpret bound program) :=
  (interpret_orderly bound program).restores

end Lox
