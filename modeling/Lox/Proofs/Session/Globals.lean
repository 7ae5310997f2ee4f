import Lox.Proofs.Evaluation.Globals
import Lox.Proofs.Session.Calls
import Lox.Proofs.Session.Stages

/-!
# Global names

Between two uses of a session the environment is that of the globals, and a source can add to them:
a program that is run adds the names of its own declarations, those that stand in no block and no
function, as far as it gets.  There is no other way, and none to remove a name.

A program runs its statements at the top level one after another.  Those that are completed have
bound their names; the one that fails has not, for a declaration binds its name last.  All other
statements run inside frames of their own or bind nothing, which the module on where a run binds
names has shown for every machine.

* `Session.Used.atTop` — the environment between two uses.
* `Session.globals_of_accepts` — the globals after a source that is run.
* `globals_are_declared` — only declarations at the top level add globals.
-/

namespace Lox

open Eval

namespace Session

variable {s s' : Session} {source : String} {program : List Stmt} {bound : Nat} {x : String}

/-- Between two uses of a session the environment is that of the globals. -/
theorem Used.atTop {clock : Nat → Float} {sink : Sink} (used : Used clock sink s) :
    s.machine.AtTop := by
  refine used.preserved ?_ ⟨rfl, by simp [Machine.initial]⟩
  exact {
    resolved := fun h _ => ⟨h.env, h.exists_frame⟩
    interpret := fun h bound program =>
      h.evolve ((evolving.interpret (fun _ _ => ⟨.refl, trivial⟩) bound program).left _)
    execute := fun h bound stmt => h.evolve ((evolving.execute bound stmt).left _)
    evaluate := fun h bound e => h.evolve ((evolving.evaluate bound e).left _)
    defineGlobal := fun h _ _ =>
      ⟨h.env, by simpa [Machine.defineGlobal, Frames.define] using h.exists_frame⟩ }

/-- The machine on which a source is run has the frames of the one before. -/
theorem Accepts.machine (h : s.Accepts source program s') :
    s'.machine.env = s.machine.env ∧ s'.machine.frames = s.machine.frames ∧
      Stmt.ShapedAll program := by
  obtain ⟨s₁, hread, hresolve⟩ := h
  obtain ⟨-, faultless, rfl, rfl⟩ := read_eq_done hread
  obtain ⟨entries, -, rfl⟩ := resolve_eq_done hresolve
  exact ⟨rfl, rfl, shaped_parsed faultless⟩

/-- The environment is that of the globals still when a source has been accepted. -/
theorem Accepts.atTop (h : s.Accepts source program s') (top : s.machine.AtTop) :
    s'.machine.AtTop := by
  obtain ⟨env, frames, -⟩ := h.machine
  exact ⟨env.trans top.env, frames ▸ top.exists_frame⟩

/-- Reading and resolving add no global. -/
theorem Accepts.isGlobal_iff (h : s.Accepts source program s') :
    s'.machine.IsGlobal x ↔ s.machine.IsGlobal x := by
  rw [Machine.IsGlobal, Machine.IsGlobal, h.machine.2.1]

/-- A source that is run adds the names that its statements declare, as far as it gets. -/
theorem globals_of_accepts (top : s.machine.AtTop) (accepts : s.Accepts source program s') :
    (s.run bound source).2.machine.IsGlobal x ↔
      s.machine.IsGlobal x ∨ x ∈ Stmt.declaredAll (completed bound program s'.machine) := by
  rw [run_of_accepts accepts, interpret, machine_perform,
    interpret_globals program accepts.machine.2.2 (accepts.atTop top), accepts.isGlobal_iff]

/-- A source that is refused adds none. -/
theorem globals_of_refuses {errors : List Diagnostic} (refuses : s.Refuses source errors) :
    (s.run bound source).2.machine.IsGlobal x ↔ s.machine.IsGlobal x := by
  obtain ⟨next, same⟩ := run_of_refuses refuses
  rw [same]

/-- One that ends without an error got to its end. -/
theorem completed_of_done (accepts : s.Accepts source program s')
    (done : (s.run bound source).1 = .done ()) :
    completed bound program s'.machine = program := by
  rw [run_of_accepts accepts] at done
  obtain ⟨n, ran, -⟩ := perform_eq_done done
  obtain ⟨_, k, executed, -⟩ := bind_eq_ok.1 ran
  exact completed_of_ok executed

/-- The globals at every moment of a run: those before it, and the names that were declared by the
statements before the one that is being executed. -/
theorem globals_on_the_way (top : s.machine.AtTop) (accepts : s.Accepts source program s')
    {before after : List Stmt} {stmt : Stmt} {n : Machine}
    (split : program = before ++ stmt :: after)
    (run : executeProgram bound before s'.machine = .ok () n) {q : Moment}
    (reaches : Moment.Reaches ⟨bound, .statement stmt, n⟩ q) :
    q.Sheltered ∧ (q.machine.IsGlobal x ↔
      s.machine.IsGlobal x ∨ x ∈ Stmt.declaredAll before) := by
  obtain ⟨shapedBefore, shaped, -⟩ := Stmt.shapedAll_append.1 (split ▸ accepts.machine.2.2)
  have top' := accepts.atTop top
  have start : n.AtTop := top'.evolve ((executeProgram_evolving bound before).of_ok run)
  obtain ⟨sheltered, same⟩ := reaches.sheltered ⟨start.exists_frame, .inr shaped⟩ (x := x)
  refine ⟨sheltered, same.trans ?_⟩
  have added : ((executeProgram bound before).left s'.machine).IsGlobal x ↔ _ :=
    executeProgram_globals before shapedBefore top'
  rwa [left_ok run, completed_of_ok run, accepts.isGlobal_iff] at added

end Session

/-- **Only declarations at the top level add globals.**  On any machine, whatever its functions, an
expression adds no global, and neither does a statement in a scope of its own, nor one that declares
nothing.  Between two uses of a session the environment is that of the globals.  Then a source that
is not run adds none; one that is run adds the names of the declarations that stand directly in the
program, as far as it gets, and keeps all others; if it ends without an error, it gets to its end.
At every moment on the way the globals are those before and the names that are declared so far, and
while a statement at the top level is executed no block and no body of a function is executed in the
environment of the globals. -/
theorem globals_are_declared :
    (∀ (bound : Nat) (m : Machine), 0 < m.frames.size → ∀ x,
      (∀ e, ((evaluate bound e).left m).IsGlobal x ↔ m.IsGlobal x) ∧
      ∀ stmt : Stmt, (m.env.innermost ≠ 0 ∨ stmt.Shaped ∧ stmt.declares = false) →
        (((execute bound stmt).left m).IsGlobal x ↔ m.IsGlobal x)) ∧
    (∀ clock sink s, Session.Used clock sink s → s.machine.AtTop) ∧
    ∀ (s : Session), s.machine.AtTop → ∀ (bound : Nat) (source : String),
      let left := (s.run bound source).2.machine
      ((∀ program s', ¬s.Accepts source program s') →
        ∀ x, left.IsGlobal x ↔ s.machine.IsGlobal x) ∧
      ∀ program s', s.Accepts source program s' →
        let done := completed bound program s'.machine
        (∀ x, left.IsGlobal x ↔ s.machine.IsGlobal x ∨ x ∈ Stmt.declaredAll done) ∧
        ((s.run bound source).1 = .done () → done = program) ∧
        ∀ before stmt after n, program = before ++ stmt :: after →
          executeProgram bound before s'.machine = .ok () n →
          ∀ q, Moment.Reaches ⟨bound, .statement stmt, n⟩ q →
            (∀ x, q.machine.IsGlobal x ↔ s.machine.IsGlobal x ∨ x ∈ Stmt.declaredAll before) ∧
            ∀ ss, q.task = .statements ss → q.machine.env.innermost ≠ 0 := by
  refine ⟨fun bound m exists_frame x => ⟨fun e => ?_, fun stmt inner => ?_⟩,
    fun clock sink s used => used.atTop, fun s top bound source => ⟨fun refused x => ?_, ?_⟩⟩
  · exact ((Expr.eval_evolving e).left m).isGlobal_iff exists_frame nofun
  · rcases inner with inner | ⟨shaped, declares⟩
    · exact ((evolving.execute bound stmt).left m).isGlobal_iff exists_frame fun _ => inner
    · exact ((Stmt.exec_evolving stmt shaped declares).left m).isGlobal_iff exists_frame nofun
  · rcases s.accepts_or_refuses source with ⟨program, s', accepts⟩ | ⟨errors, refuses⟩
    · exact absurd accepts (refused program s')
    · exact Session.globals_of_refuses refuses
  · intro program s' accepts
    refine ⟨fun x => Session.globals_of_accepts top accepts, Session.completed_of_done accepts, ?_⟩
    intro before stmt after n split run q reaches
    have way := fun x => Session.globals_on_the_way top accepts split run reaches (x := x)
    exact ⟨fun x => (way x).2, fun ss task => (way "").1.statements task⟩

/-- A function of an earlier source is called in a loop that has a variable of its own, a class is
declared, and then a variable, which fails.  The class is a global, and nothing else is new; the
loop is executed in a scope of its own, where no global is added. -/
theorem globals_are_declared_until_failure :
    let source := "for (var i = true; i; i = nil) \x7b f(i); \x7d class K \x7b\x7d var z = i;"
    ∃ s : Session, Session.Used (fun _ => 0) {} s ∧ s.machine.IsGlobal "f" ∧
      (s.run 9 source).1.errors = [.runtime 1 (.undefinedVariable "i")] ∧
      (∀ x, (s.run 9 source).2.machine.IsGlobal x ↔ s.machine.IsGlobal x ∨ x = "K") ∧
      ∃ body rest, (s.parsed source).statements = .block body :: rest ∧
        ∃ q : Moment, q.task = .statements body ∧ q.machine.env.innermost ≠ 0 ∧
          (∀ x, q.machine.IsGlobal x ↔ s.machine.IsGlobal x) ∧
          ∀ stmt x, ((execute 9 stmt).left q.machine).IsGlobal x ↔ q.machine.IsGlobal x := by
  intro source
  obtain ⟨anywhere, used, globals⟩ := globals_are_declared
  have first : Session.Used (fun _ => 0) {} _ :=
    .run .initial 9 "var a; fun f(p) \x7b var l = p; a = l; \x7d"
  -- The session is only opened where the kernel is to compute.
  generalize hs : (Session.run 9 _ _).2 = s at first
  have top := used _ _ s first
  obtain ⟨-, ran⟩ := globals s top 9 source
  have hread := s.read_of_faultless source (by decide +kernel) (by subst hs; decide +kernel)
  have resolved : Lox.resolve (s.parsed source).statements =
      .ok ((Lox.resolve (s.parsed source).statements).toOption.getD []) := by
    subst hs
    decide +kernel
  obtain ⟨added, -, way⟩ := ran _ _ ⟨_, hread, Session.resolve_of_ok resolved⟩
  have one {names : List String} (h : names = ["K"]) (x : String) : x ∈ names ↔ x = "K" := by
    rw [h, List.mem_singleton]
  refine ⟨s, first, by subst hs; decide +kernel, by subst hs; decide +kernel,
    fun x => (added x).trans (or_congr_right (one ?_ x)), ?_⟩
  · subst hs
    decide +kernel
  · obtain ⟨body, rest, shape⟩ :
        ∃ body rest, (s.parsed source).statements = .block body :: rest := by
      -- The fourth kind of statement is the block.
      have isBlock : (s.parsed source).statements.head?.map Stmt.ctorIdx = some 3 := by
        subst hs
        decide +kernel
      cases hp : (s.parsed source).statements with
      | nil => simp [hp] at isBlock
      | cons stmt rest =>
          rw [hp] at isBlock
          cases stmt with
          | block body => exact ⟨body, rest, rfl⟩
          | _ => cases isBlock
    have inside := way [] _ _ _ shape rfl _ (Moment.Next.block.reaches .refl)
    have inner := inside.2 body rfl
    refine ⟨body, rest, shape, _, rfl, inner, fun x => (inside.1 x).trans (by simp),
      fun stmt x => ?_⟩
    refine (anywhere 9 _ ?_ x).2 stmt (.inl inner)
    simp [Machine.opened]

end Lox
