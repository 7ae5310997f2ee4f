import Lox.Proofs.Evaluation.Binding
import Lox.Proofs.Evaluation.Course
import Lox.Proofs.Evaluation.Restores
import Lox.Proofs.Parse.Shape

/-!
# Where a run binds names

A declaration binds its name in the innermost frame of the current environment, whatever that is.
All runs bind names in that frame only, and those that open a scope, or a call, bind them in a new
one.  So what is run inside a block or a function adds no global, and neither does an expression,
wherever it is evaluated; at the top level only a declaration does.  Nothing is asked of the
machine: its functions can be of any program.

* `Eval.Evolving` — a step binds names in the innermost frame only, or in none that was there.
* `Eval.confined`, `Eval.evolving`, `Callable.apply_evolving`, `Stmt.exec_evolving` — the runs that
  do so.
* `Machine.IsGlobal` — a name is bound in the frame of the globals.
* `Stmt.declaredAll`, `completed` — the names that a program declares, and how far it gets.
* `executeProgram_globals` — the globals that a program leaves.
* `Moment.Next.sheltered`, `Moment.Reaches.sheltered` — the globals on the way.
-/

namespace Lox

open Eval

/-! ## Frames

A step evolves a machine if it binds names in no frame that was there before, but for the innermost
one of the current environment if it may define. -/

/-- What a step does to the frames, however it ends: it binds names in the innermost frame, and only
if it `defines`. -/
def Eval.Evolving (defines : Bool) {α : Type} (step : Eval α) : Prop :=
  Moves (Machine.Evolves defines) (fun _ => True) step

namespace Eval

theorem Evolving.passes (defines : Bool) : Passes (Evolving defines) :=
  Law.passes {
    trans := .trans
    unseen := fun frames env depth distances => .of_frames env depth distances frames
    rebind := .bind_bound
    finish := .finished
    fails := fun _ _ _ => trivial
    output := fun _ => trivial
    exhausted := trivial }

/-- A step that binds nothing where it is may as well be allowed to. -/
theorem Evolving.weaken {α : Type} {step : Eval α} (h : Evolving false step) :
    Evolving true step := by
  intro m
  cases hs : step m with
  | ok a n => exact (h.of_ok hs).weaken
  | error stop n => exact ⟨(h.of_error hs).1.weaken, trivial⟩

/-- What a new scope binds is bound in a frame of its own. -/
theorem Evolving.inScope {α : Type} {step : Eval α} (h : Evolving true step) (env : Env) :
    Evolving false (inScope env step) :=
  Moves.inScope .closed h env

/-- All operations but declarations bind none. -/
theorem confined : Passes (Evolving false) :=
  Evolving.passes false

/-- **All runs bind names in the innermost frame only.** -/
theorem evolving : Closed (Evolving true) where
  toPasses := Evolving.passes true
  define name v _ := .bind_innermost name v
  defineCallable name c m :=
    .trans (n := { m with callables := m.callables + 1 }) (.of_frames rfl rfl rfl rfl)
      (.bind_innermost name (.callable m.callables c))
  inScope h env := (h.inScope env).weaken

end Eval

section
variable {bound : Nat}

/-- A call binds names in frames of its own only. -/
theorem Callable.apply_evolving (bound : Nat) (c : Callable) (arguments : List Value)
    (line : Nat) : Evolving false (Callable.apply bound c arguments line) := by
  cases bound with
  | zero => exact confined.exhausted
  | succ bound =>
      refine confined.callee bound (fun parameters arguments body closure => ?_) c
        arguments line
      exact (evolving.body bound (evolving.apply bound) parameters arguments body).inScope closure

/-- An expression binds nothing in the frames that are there. -/
theorem Expr.eval_evolving (e : Expr) : Evolving false (evaluate bound e) :=
  confined.eval (Callable.apply_evolving bound) e

theorem Expr.evalOption_evolving (e : Option Expr) :
    Evolving false (Expr.evalOption (Callable.apply bound) e) :=
  confined.evalOption (Callable.apply_evolving bound) e

/-- A statement that declares nothing in the scope it stands in adds no global, whatever it declares
in scopes of its own. -/
theorem Stmt.exec_evolving : ∀ s : Stmt, s.Shaped → s.declares = false →
    Evolving false (execute bound s)
  | .expression e, _, _ => confined.bind (Expr.eval_evolving e) fun _ => confined.pure _
  | .print e, _, _ =>
      confined.bind (Expr.eval_evolving e) fun x =>
        confined.bind (confined.printLine x.display) fun _ => confined.pure _
  | .block body, _, _ =>
      confined.bind confined.get fun m =>
        (evolving.execAll (evolving.apply bound) body).inScope m.env
  | .branch condition yes none, ⟨declares, shaped⟩, _ => by
      refine confined.bind (Expr.eval_evolving condition) fun x => ?_
      split
      · exact Stmt.exec_evolving yes shaped declares
      · exact confined.pure _
  | .branch condition yes (some no), ⟨⟨declares, shaped⟩, declares', shaped'⟩, _ => by
      refine confined.bind (Expr.eval_evolving condition) fun x => ?_
      split
      · exact Stmt.exec_evolving yes shaped declares
      · exact Stmt.exec_evolving no shaped' declares'
  | .loop condition body, ⟨declares, shaped⟩, _ =>
      confined.repeatWhile (Expr.eval_evolving condition)
        (Stmt.exec_evolving body shaped declares) bound
  | .ret _ value, _, _ =>
      confined.bind (Expr.evalOption_evolving value) fun _ => confined.pure _

end

/-! ## Globals

The frame of the globals is the innermost one at the top level only. -/

/-- A name is bound in the frame of the globals. -/
def Machine.IsGlobal (m : Machine) (x : String) : Prop :=
  (m.frames.bindings 0).binds x = true

instance (m : Machine) (x : String) : Decidable (m.IsGlobal x) :=
  inferInstanceAs (Decidable (_ = true))

/-- The current environment is that of the globals, as between two sources. -/
structure Machine.AtTop (m : Machine) : Prop where
  env : m.env = globals
  exists_frame : 0 < m.frames.size

namespace Machine

variable {defines : Bool} {m n : Machine} {x : String}

/-- A step that binds no name outside a scope of its own leaves the globals as they are. -/
theorem Evolves.isGlobal_iff (h : m.Evolves defines n) (exists_frame : 0 < m.frames.size)
    (inner : defines = true → m.env.innermost ≠ 0) : n.IsGlobal x ↔ m.IsGlobal x :=
  ⟨h.kept 0 exists_frame (fun defines => (inner defines).symm) x, h.grows.binds 0 x⟩

theorem AtTop.evolve (h : m.AtTop) (evolves : m.Evolves defines n) : n.AtTop :=
  ⟨evolves.env.trans h.env, Nat.lt_of_lt_of_le h.exists_frame evolves.grows.size⟩

/-- At the top level a step that may not define adds no global. -/
theorem AtTop.isGlobal_iff (h : m.AtTop) (evolves : m.Evolves false n) :
    n.IsGlobal x ↔ m.IsGlobal x :=
  evolves.isGlobal_iff h.exists_frame nofun

/-- A declaration at the top level adds its name. -/
theorem AtTop.isGlobal_define (h : m.AtTop) {name : String} {v : Value}
    (frames : n.frames = m.frames.define m.env name v) :
    n.IsGlobal x ↔ m.IsGlobal x ∨ x = name := by
  have top : 0 = globals.innermost ∧ globals.innermost < m.frames.size := ⟨rfl, h.exists_frame⟩
  unfold IsGlobal
  rw [frames, Frames.define, h.env, Frames.bindings_write, if_pos top, Bindings.binds_insert,
    Bool.or_eq_true, decide_eq_true_iff, or_comm]
  rfl

end Machine

/-- The names that statements declare in the scope they stand in. -/
def Stmt.declaredAll (ss : List Stmt) : List String :=
  ss.filterMap Stmt.name?

@[simp]
theorem Stmt.not_mem_declaredAll_nil {x : String} : ¬x ∈ Stmt.declaredAll [] :=
  List.not_mem_nil

@[simp]
theorem Stmt.mem_declaredAll_cons {x : String} {s : Stmt} {ss : List Stmt} :
    x ∈ Stmt.declaredAll (s :: ss) ↔ s.name? = some x ∨ x ∈ Stmt.declaredAll ss := by
  simp [declaredAll]

/-- The statements of a program that are executed to their ends, up to the first that is not, or
that ends with a return. -/
def completed (bound : Nat) : List Stmt → Machine → List Stmt
  | [], _ => []
  | s :: ss, m =>
    match execute bound s m with
    | .ok .normal n => s :: completed bound ss n
    | _ => []

section
variable {bound : Nat} {m n : Machine} {x : String}

/-- A statement at the top level that is executed to its end adds the name it declares, if it
declares one. -/
theorem isGlobal_of_ok {s : Stmt} (shaped : s.Shaped) (top : m.AtTop) {flow : Flow}
    (h : execute bound s m = .ok flow n) :
    n.IsGlobal x ↔ m.IsGlobal x ∨ flow = .normal ∧ s.name? = some x := by
  cases hd : s.declares with
  | false =>
      have same := top.isGlobal_iff ((Stmt.exec_evolving s shaped hd).of_ok h) (x := x)
      simp [same, s.name?_eq_none hd]
  | true =>
      cases s with
      | var name initializer =>
          obtain ⟨v, k, hv, h⟩ := bind_eq_ok.1 h
          cases h
          have evolves := (Expr.evalOption_evolving initializer).of_ok hv
          simp only [Stmt.name?, true_and, Option.some.injEq, eq_comm]
          rw [← top.isGlobal_iff evolves]
          exact (top.evolve evolves).isGlobal_define rfl
      | function | cls =>
          cases h
          simp only [Stmt.name?, true_and, Option.some.injEq, eq_comm]
          exact top.isGlobal_define rfl
      | _ => cases hd

/-- A statement that fails has bound nothing at the top level, a declaration included: its
initializer failed. -/
theorem isGlobal_of_error {s : Stmt} (shaped : s.Shaped) (top : m.AtTop) {stop : Stop}
    (h : execute bound s m = .error stop n) : n.IsGlobal x ↔ m.IsGlobal x := by
  cases hd : s.declares with
  | false => exact top.isGlobal_iff ((Stmt.exec_evolving s shaped hd).of_error h).1
  | true =>
      cases s with
      | var name initializer =>
          cases hv : Expr.evalOption (Callable.apply bound) initializer m with
          | ok v k => cases (bind_ok hv).symm.trans h
          | error _ k =>
              cases (bind_error hv).symm.trans h
              exact top.isGlobal_iff ((Expr.evalOption_evolving initializer).of_error hv).1
      | function | cls => cases h
      | _ => cases hd

theorem executeProgram_evolving (bound : Nat) (program : List Stmt) :
    Evolving true (executeProgram bound program) :=
  evolving.executeProgram (fun _ _ => ⟨.refl, trivial⟩) bound program

/-- All statements of a program that does not fail are executed to their ends. -/
theorem completed_of_ok {program : List Stmt} (h : executeProgram bound program m = .ok () n) :
    completed bound program m = program := by
  induction program generalizing m with
  | nil => rfl
  | cons s ss ih =>
      obtain ⟨flow, k, hs, h⟩ := bind_eq_ok.1 h
      cases flow with
      | normal => simp only [completed, hs, ih h]
      | returned => cases h

/-- **A program adds the names that its statements declare, as far as it gets**, however it
ends. -/
theorem executeProgram_globals (program : List Stmt) (shaped : Stmt.ShapedAll program)
    (top : m.AtTop) : ((executeProgram bound program).left m).IsGlobal x ↔
      m.IsGlobal x ∨ x ∈ Stmt.declaredAll (completed bound program m) := by
  induction program generalizing m with
  | nil =>
      simp only [completed, Stmt.not_mem_declaredAll_nil, or_false]
      rfl
  | cons s ss ih =>
      obtain ⟨first, others⟩ := shaped
      cases hs : execute bound s m with
      | error stop n =>
          rw [executeProgram, left_error (bind_error hs), isGlobal_of_error first top hs]
          simp [completed, hs]
      | ok flow n =>
          have next := isGlobal_of_ok first top hs (x := x)
          rw [executeProgram, left_bind hs]
          cases flow with
          | returned v line =>
              show n.IsGlobal x ↔ _
              simpa [completed, hs] using next
          | normal =>
              have rest := ih others (top.evolve ((evolving.execute bound s).of_ok hs))
              simp [rest, next, completed, hs, or_assoc]

/-- The flush at the end leaves the globals as they are. -/
theorem interpret_globals (program : List Stmt) (shaped : Stmt.ShapedAll program)
    (top : m.AtTop) : ((interpret bound program).left m).IsGlobal x ↔
      m.IsGlobal x ∨ x ∈ Stmt.declaredAll (completed bound program m) := by
  rw [← executeProgram_globals program shaped top, interpret]
  cases h : executeProgram bound program m with
  | ok _ n =>
      have next := top.evolve ((executeProgram_evolving bound program).of_ok h)
      rw [left_bind h, left_ok h]
      exact next.isGlobal_iff (confined.flush.left n)
  | error stop n => rw [left_error (bind_error h), left_error h]

end

/-! ## On the way

The same inside of a run: wherever a run has come to, the frame of the globals is the innermost one
only for statements of the program itself. -/

/-- In a new scope, and in a call, the innermost frame is a new one. -/
theorem Machine.Evolves.of_opened {defines : Bool} {m n : Machine} {env : Env} {x : String}
    (h : (m.opened env).Evolves defines n) (exists_frame : 0 < m.frames.size) :
    n.env.innermost ≠ 0 ∧ 0 < n.frames.size ∧ (n.IsGlobal x ↔ m.IsGlobal x) := by
  have innermost : (m.opened env).env.innermost ≠ 0 := Nat.ne_of_gt exists_frame
  have size : 0 < (m.opened env).frames.size := by simp [Machine.opened]
  refine ⟨by rwa [h.env], Nat.lt_of_lt_of_le size h.grows.size, ?_⟩
  rw [h.isGlobal_iff size fun _ => innermost]
  simp [Machine.IsGlobal, Machine.opened]

/-- Whatever is evaluated as this adds no global before it is over, even at the top level. -/
def Task.Shaped : Task → Prop
  | .statement s => s.Shaped
  | .statements _ => False
  | .loop _ body _ => body.declares = false ∧ body.Shaped
  | _ => True

namespace Moment

/-- The innermost frame is not that of the globals, or nothing is bound in it before what is
evaluated is over. -/
structure Sheltered (p : Moment) : Prop where
  exists_frame : 0 < p.machine.frames.size
  inner : p.machine.env.innermost ≠ 0 ∨ p.task.Shaped

variable {p q : Moment} {x : String}

/-- **A step of a run adds no global**, once a statement at the top level is being executed. -/
theorem Next.sheltered (next : p.Next q) (h : p.Sheltered) :
    q.Sheltered ∧ (q.machine.IsGlobal x ↔ p.machine.IsGlobal x) := by
  obtain ⟨exists_frame, inner⟩ := h
  have value {b e m v n} (he : Expr.eval (Callable.apply b) e m = .ok v n) : m.Evolves false n :=
    (Expr.eval_evolving e).of_ok he
  have values {b es m vs n} (hes : Expr.evalAll (Callable.apply b) es m = .ok vs n) :
      m.Evolves false n :=
    (confined.evalAll (Callable.apply_evolving b) es).of_ok hes
  have flow {b s m f n} (hs : Stmt.exec (Callable.apply b) b s m = .ok f n) : m.Evolves true n :=
    (evolving.execute b s).of_ok hs
  -- All but blocks and calls go on in the same environment.
  have goesOn {defines : Bool} (evolves : p.machine.Evolves defines q.machine)
      (unbound : defines = true → p.machine.env.innermost ≠ 0)
      (shaped : p.task.Shaped → q.task.Shaped) :
      q.Sheltered ∧ (q.machine.IsGlobal x ↔ p.machine.IsGlobal x) := by
    refine ⟨⟨Nat.lt_of_lt_of_le exists_frame evolves.grows.size, ?_⟩,
      evolves.isGlobal_iff exists_frame unbound⟩
    rw [evolves.env]
    exact inner.imp_right shaped
  cases next with
  | group | operand | left | logicalLeft | assigned | callee | object | setObject | firstExpression
  | expression | printed | initializer | condition | loopCondition | returned =>
      exact goesOn (.refl : Machine.Evolves false _ _) nofun fun _ => trivial
  | right he | logicalRight he | write he | arguments he | setValue he | otherExpressions he =>
      exact goesOn (value he) nofun fun _ => trivial
  | call hf has => exact goesOn ((value hf).trans (values has)) nofun fun _ => trivial
  | @yes b e yes no m v n he =>
      refine goesOn (value he) nofun fun shaped => ?_
      cases no with
      | none => exact shaped.2
      | some no => exact shaped.1.2
  | no he => exact goesOn (value he) nofun fun shaped => shaped.2.2
  | loop => exact goesOn (.refl : Machine.Evolves false _ _) nofun id
  | loopBody he => exact goesOn (value he) nofun And.right
  | @loopAgain b e body rounds m v n k he hv hbody =>
      rcases inner with inner | ⟨declares, shaped⟩
      · exact goesOn ((value he).weaken.trans (flow hbody)) (fun _ => inner) id
      · have same := (Stmt.exec_evolving body shaped declares).of_ok hbody
        exact goesOn ((value he).trans same) nofun id
  | firstStatement => exact goesOn (.refl : Machine.Evolves false _ _) nofun False.elim
  | otherStatements hs =>
      exact goesOn (flow hs) (fun _ => inner.resolve_right id) False.elim
  | block =>
      obtain ⟨inner, size, same⟩ := Machine.Evolves.of_opened
        (.refl : Machine.Evolves false _ _) exists_frame
      exact ⟨⟨size, .inl inner⟩, same⟩
  | body arity room hn =>
      obtain ⟨inner, size, same⟩ := Machine.Evolves.of_opened
        ((evolving.bindParameters _ _).of_ok hn) exists_frame
      exact ⟨⟨size, .inl inner⟩, same⟩

/-- **A run adds no global**, from the start of a statement at the top level to its end. -/
theorem Reaches.sheltered (reaches : p.Reaches q) (h : p.Sheltered) :
    q.Sheltered ∧ (q.machine.IsGlobal x ↔ p.machine.IsGlobal x) := by
  induction reaches with
  | refl => exact ⟨h, .rfl⟩
  | tail _ next ih =>
      obtain ⟨sheltered, same⟩ := next.sheltered ih.1
      exact ⟨sheltered, same.trans ih.2⟩

/-- While a statement at the top level is being executed, no block and no body of a function in it
is executed in the environment of the globals. -/
theorem Sheltered.statements (h : p.Sheltered) {ss : List Stmt} (task : p.task = .statements ss) :
    p.machine.env.innermost ≠ 0 :=
  h.inner.resolve_right (by simp [task, Task.Shaped])

end Moment

end Lox
