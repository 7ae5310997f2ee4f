import Lox.CommandLine
import Lox.Proofs.Evaluation.Restores
import Lox.Proofs.Session.Reachable

/-!
# Stages

A source goes through four stages, and the first that finds a fault in it has the last word.  The
scan and the parse report all faults that they find, the other two report one.  Up to the last stage
the machine is not touched, so a source that is refused leaves no trace on it.

For each stage there is one kind of diagnostic, and the text of a diagnostic says which: so it is
enough to know which stage a source ended in.  A source is either accepted, and then its run is that
of its program in a machine that no stage has touched, or it is refused with what one stage has
found.

* `Stage`, `Diagnostic.stage` — the stages, and the one that a diagnostic comes from.
* `Session.Accepts`, `Session.Refuses` — what becomes of a source before it is run.
* `Session.accepts_or_refuses`, `Session.run_of_accepts`, `Session.run_of_refuses` — what the run of
  a source is in each case.
* `Command.onFile_cases` — a file that is run holds a source, or is refused itself.
* `Session.failures_staged` — errors are of one stage, and the status of a command says of which.
-/

namespace Lox

/-! ## Diagnostics

Every diagnostic is of one stage, and the lists that the stages report are of one stage each. -/

/-- A stage on the way from a source to what it prints. -/
inductive Stage where
  | scan
  | parse
  | resolve
  | run
  deriving DecidableEq, Repr

/-- The stage that a diagnostic comes from. -/
def Diagnostic.stage : Diagnostic → Stage
  | lexical .. => .scan
  | syntactic .. => .parse
  | binding .. => .resolve
  | runtime .. | output _ => .run

/-- A diagnostic counts as one of a run if the last stage made it. -/
theorem Diagnostic.isRuntime_iff {d : Diagnostic} : d.isRuntime = true ↔ d.stage = .run := by
  cases d <;> simp [isRuntime, stage]

/-- What a scan reports is of the scan. -/
theorem Scan.stage_of_mem_faults {items : List Scan.Item} {d : Diagnostic}
    (h : d ∈ Scan.faults items) : d.stage = .scan := by
  obtain ⟨item, -, hd⟩ := List.mem_filterMap.1 h
  cases item with
  | token => cases hd
  | fault => exact Option.some.inj hd ▸ rfl

/-- What a parse reports is of the parse. -/
theorem Parsed.stage_of_mem_diagnostics {p : Parsed} {d : Diagnostic} (h : d ∈ p.diagnostics) :
    d.stage = .parse := by
  obtain ⟨fault, -, rfl⟩ := List.mem_map.1 h
  rfl

/-! The status says which stage the errors are from. -/

section
variable {errors : List Diagnostic}

/-- The status is zero if and only if there is nothing to report. -/
theorem statusOf_eq_zero_iff : statusOf errors = 0 ↔ errors = [] := by
  cases errors with
  | nil => simp [statusOf]
  | cons d errors =>
      simp only [statusOf, List.isEmpty_cons, Bool.false_eq_true, if_false, reduceCtorEq, iff_false]
      split <;> decide

theorem statusOf_run {d : Diagnostic} (h : d.stage = .run) : statusOf [d] = 70 := by
  simp [statusOf, Diagnostic.isRuntime_iff.2 h]

/-- Errors of which none is from a run have the status of a source that was refused. -/
theorem statusOf_early (ne : errors ≠ []) (early : ∀ d ∈ errors, d.stage ≠ .run) :
    statusOf errors = 65 := by
  have noRun : errors.any Diagnostic.isRuntime = false :=
    List.any_eq_false.2 fun d hd runs => early d hd (Diagnostic.isRuntime_iff.1 runs)
  simp [statusOf, ne, noRun]

end

/-! ## What becomes of a source

Reading and resolving come before the run.  They decide whether there is a run, and nothing of the
machine decides them but the table of distances. -/

namespace Session

variable {s s' : Session} {source : String} {program : List Stmt} {errors : List Diagnostic}

/-- A source is read, and its program is resolved: the other session is to run it. -/
def Accepts (s : Session) (source : String) (program : List Stmt) (s'' : Session) : Prop :=
  ∃ s', s.read source = (.done program, s') ∧ s'.resolve program = (.done (), s'')

/-- The errors that a stage before the last one finds in a source, if those before it find none. -/
inductive Refuses (s : Session) (source : String) : List Diagnostic → Prop
  | scan (faulty : Scan.faults (Lox.scan source) ≠ []) :
      Refuses s source (Scan.faults (Lox.scan source))
  | parse (scanned : Scan.faults (Lox.scan source) = [])
      (faulty : (s.parsed source).diagnostics ≠ []) :
      Refuses s source (s.parsed source).diagnostics
  | resolve {program : List Stmt} {s' : Session} {line : Nat} {fault : BindingFault}
      (hread : s.read source = (.done program, s'))
      (hresolve : Lox.resolve program = .error (line, fault)) :
      Refuses s source [.binding line fault]

/-- There is no third way. -/
theorem accepts_or_refuses (s : Session) (source : String) :
    (∃ program s', s.Accepts source program s') ∨ ∃ errors, s.Refuses source errors := by
  by_cases scanned : Scan.faults (Lox.scan source) = []
  · by_cases faultless : (s.parsed source).faults = []
    · have hread := read_of_faultless source scanned faultless
      cases hresolve : Lox.resolve (s.parsed source).statements with
      | ok entries => exact .inl ⟨_, _, _, hread, resolve_of_ok hresolve⟩
      | error fault => exact .inr ⟨_, .resolve hread hresolve⟩
    · refine .inr ⟨_, .parse scanned fun none => faultless ?_⟩
      simpa [Parsed.diagnostics] using none
  · exact .inr ⟨_, .scan scanned⟩

/-! ### Sources that are refused -/

/-- A source that is refused is not run, and all that it leaves are identities that no tree got. -/
theorem run_of_refuses (h : s.Refuses source errors) :
    ∃ next, ∀ bound, s.run bound source = (.failed errors, { s with nextNode := next }) := by
  cases h with
  | scan faulty =>
      refine ⟨s.nextNode, fun bound => ?_⟩
      obtain ⟨d, ds, faults⟩ := List.exists_cons_of_ne_nil faulty
      simp only [run, read, faults]
  | parse scanned faulty =>
      refine ⟨(s.parsed source).nextNode, fun bound => ?_⟩
      obtain ⟨d, ds, faults⟩ := List.exists_cons_of_ne_nil faulty
      rw [parsed, ← Scan.tokens_scan] at faults ⊢
      simp only [run, read, scanned, faults]
  | resolve hread hresolve =>
      obtain ⟨-, -, -, rfl⟩ := read_eq_done hread
      refine ⟨(s.parsed source).nextNode, fun bound => ?_⟩
      simp only [run, hread, runProgram, resolve, hresolve]

/-- The errors of a source that is refused are of one stage; the one that resolves reports one. -/
theorem Refuses.staged (h : s.Refuses source errors) : errors ≠ [] ∧
    ((∀ d ∈ errors, d.stage = .scan) ∨ (∀ d ∈ errors, d.stage = .parse) ∨
      ∃ d, errors = [d] ∧ d.stage = .resolve) := by
  cases h with
  | scan faulty => exact ⟨faulty, .inl fun d => Scan.stage_of_mem_faults⟩
  | parse _ faulty => exact ⟨faulty, .inr (.inl fun d => Parsed.stage_of_mem_diagnostics)⟩
  | resolve => exact ⟨List.cons_ne_nil _ _, .inr (.inr ⟨_, rfl, rfl⟩)⟩

/-- A source that is refused has the status 65. -/
theorem Refuses.statusOf (h : s.Refuses source errors) : statusOf errors = 65 := by
  obtain ⟨ne, staged⟩ := h.staged
  refine statusOf_early ne fun d hd => ?_
  rcases staged with scan | parse | ⟨e, rfl, resolve⟩
  · simp [scan d hd]
  · simp [parse d hd]
  · simp [List.mem_singleton.1 hd, resolve]

/-! ### Sources that are accepted -/

/-- A source that is accepted is run, and nothing else becomes of it. -/
theorem run_of_accepts (h : s.Accepts source program s') (bound : Nat) :
    s.run bound source = s'.interpret bound program := by
  obtain ⟨s₁, hread, hresolve⟩ := h
  exact run_eq_interpret hread hresolve bound

/-- A program that is run has at most one error, which comes from running it. -/
theorem interpret_outcome (bound : Nat) (program : List Stmt) (s : Session) :
    (s.interpret bound program).1 = .done () ∨ (s.interpret bound program).1 = .exhausted ∨
      ∃ d, (s.interpret bound program).1 = .failed [d] ∧ d.stage = .run := by
  simp only [interpret, perform]
  cases hi : Lox.interpret bound program s.machine with
  | ok => exact .inl rfl
  | error stop n =>
      cases stop with
      | exhausted => exact .inr (.inl rfl)
      | failed d =>
          have ofRun := ((interpret_orderly bound program).of_error hi).2
          exact .inr (.inr ⟨d, rfl, Diagnostic.isRuntime_iff.1 (ofRun d rfl)⟩)

/-- A run never has the status of a refusal, and has 70 if and only if it fails. -/
theorem statusOf_interpret (bound : Nat) (program : List Stmt) (s : Session) :
    statusOf (s.interpret bound program).1.errors ≠ 65 ∧
      (statusOf (s.interpret bound program).1.errors = 70 ↔
        ∃ errors, (s.interpret bound program).1 = .failed errors) := by
  rcases interpret_outcome bound program s with done | exhausted | ⟨d, failed, stage⟩
  · rw [done]
    exact ⟨nofun, nofun, nofun⟩
  · rw [exhausted]
    exact ⟨nofun, nofun, nofun⟩
  · rw [failed, Outcome.errors, statusOf_run stage]
    exact ⟨nofun, fun _ => ⟨_, rfl⟩, fun _ => rfl⟩

/-! ### What the status says of a source -/

/-- The status of a source that is refused says so, and the machine is as before. -/
theorem machine_of_status_eq (bound : Nat) (status : statusOf (s.run bound source).1.errors = 65) :
    (s.run bound source).2.machine = s.machine := by
  rcases s.accepts_or_refuses source with ⟨program, s', accepts⟩ | ⟨errors, refuses⟩
  · rw [run_of_accepts accepts] at status
    exact absurd status (statusOf_interpret bound program s').1
  · obtain ⟨next, same⟩ := run_of_refuses refuses
    rw [same]

/-- And so does that of one which is accepted and fails. -/
theorem status_eq_run_iff (bound : Nat) : statusOf (s.run bound source).1.errors = 70 ↔
    ∃ program s' errors, s.Accepts source program s' ∧
      (s'.interpret bound program).1 = .failed errors := by
  constructor
  · intro status
    rcases s.accepts_or_refuses source with ⟨program, s', accepts⟩ | ⟨errors, refuses⟩
    · rw [run_of_accepts accepts] at status
      obtain ⟨errors, failed⟩ := (statusOf_interpret bound program s').2.1 status
      exact ⟨program, s', errors, accepts, failed⟩
    · obtain ⟨next, same⟩ := run_of_refuses refuses
      rw [same] at status
      cases refuses.statusOf.symm.trans status
  · rintro ⟨program, s', errors, accepts, failed⟩
    rw [run_of_accepts accepts]
    exact (statusOf_interpret bound program s').2.2 ⟨errors, failed⟩

end Session

/-! ## Files

A file is refused itself if it cannot be read or is not text; nothing is read from it then. -/

/-- A file holds a source: its bytes can be had, and are text. -/
def Command.Holds (contents : Contents) (source : String) : Prop :=
  ∃ bytes, contents = .ok bytes ∧ Utf8.decode bytes = .ok source

namespace Command

variable {contents : Contents} {source other : String}

/-- The contents of a file are those of one source. -/
theorem Holds.unique (h : Holds contents source) (h' : Holds contents other) : other = source := by
  obtain ⟨bytes, rfl, decoded⟩ := h
  obtain ⟨_, same, decoded'⟩ := h'
  cases same
  exact Except.ok.inj (decoded'.symm.trans decoded)

/-- A file is run as the source it holds; if it holds none, the status is one of its own. -/
theorem onFile_cases (s : Session) (name : String) (contents : Contents) :
    ((onFile s name contents .run).status = 1 ∧ ∀ source, ¬Holds contents source) ∨
      ∃ source, Holds contents source ∧ onFile s name contents .run =
        ⟨(s.run abundant source).2.takeText.1, errorLines (s.run abundant source).1.errors,
          statusOf (s.run abundant source).1.errors⟩ := by
  cases contents with
  | error cause =>
      refine .inl ⟨rfl, ?_⟩
      rintro source ⟨bytes, h, -⟩
      cases h
  | ok bytes =>
      cases hd : Utf8.decode bytes with
      | error fault =>
          refine .inl ⟨by simp only [onFile, hd, unreadable], ?_⟩
          rintro source ⟨_, same, decoded⟩
          cases same
          cases hd.symm.trans decoded
      | ok source => exact .inr ⟨source, ⟨bytes, rfl, hd⟩, by simp only [onFile, hd, onSource]⟩

end Command

namespace Session

/-- **Errors are of one stage, and only the last one leaves anything behind.**  A source is either
accepted, and then run, which ends without an error or with one of the run; or refused, with faults
of the scan, or of the parse, or one of the resolution, whatever the bound, and then the machine is
as before.  So a command that runs a file in a new session has the status 65 only if nothing was
printed, 70 if the program was accepted and failed, and 0 if there was no error. -/
theorem failures_staged :
    (∀ (s : Session) (source : String),
      (∃ program s', s.Accepts source program s' ∧ ∀ bound,
        s.run bound source = s'.interpret bound program ∧
        ((s.run bound source).1 = .done () ∨ (s.run bound source).1 = .exhausted ∨
          ∃ d, (s.run bound source).1 = .failed [d] ∧ d.stage = .run)) ∨
      ∃ errors s', (∀ bound, s.run bound source = (.failed errors, s')) ∧
        s'.machine = s.machine ∧ errors ≠ [] ∧
        ((∀ d ∈ errors, d.stage = .scan) ∨ (∀ d ∈ errors, d.stage = .parse) ∨
          ∃ d, errors = [d] ∧ d.stage = .resolve)) ∧
    ∀ (clock : Nat → Float) (sink : Sink) (name : String) (contents : Command.Contents),
      let s := initial clock { sink with text := "" }
      let report := Command.onFile s name contents .run
      (report.status = 65 → report.stdout = "") ∧
      (report.status = 70 ↔ ∃ source program s' errors, Command.Holds contents source ∧
        s.Accepts source program s' ∧ (s'.interpret abundant program).1 = .failed errors) ∧
      (report.status = 0 ↔
        ∃ source, Command.Holds contents source ∧ (s.run abundant source).1.errors = []) := by
  constructor
  · intro s source
    rcases s.accepts_or_refuses source with ⟨program, s', accepts⟩ | ⟨errors, refuses⟩
    · refine .inl ⟨program, s', accepts, fun bound => ⟨run_of_accepts accepts bound, ?_⟩⟩
      rw [run_of_accepts accepts bound]
      exact interpret_outcome bound program s'
    · obtain ⟨next, same⟩ := run_of_refuses refuses
      exact .inr ⟨errors, _, same, rfl, refuses.staged⟩
  · intro clock sink name contents s report
    rcases Command.onFile_cases s name contents with ⟨status, holdsNone⟩ | ⟨source, holds, same⟩
    · have status : report.status = 1 := status
      rw [status]
      refine ⟨nofun, ⟨nofun, ?_⟩, nofun, ?_⟩
      · rintro ⟨source, -, -, -, holds, -⟩
        exact (holdsNone source holds).elim
      · rintro ⟨source, holds, -⟩
        exact (holdsNone source holds).elim
    · have same : report = _ := same
      rw [same]
      refine ⟨fun status => ?_, ⟨fun status => ?_, ?_⟩, fun status => ?_, ?_⟩
      · exact congrArg (·.sink.text) (machine_of_status_eq abundant status)
      · obtain ⟨program, s', errors, failed⟩ := (status_eq_run_iff abundant).1 status
        exact ⟨source, program, s', errors, holds, failed⟩
      · rintro ⟨other, program, s', errors, holds', failed⟩
        rw [holds.unique holds'] at failed
        exact (status_eq_run_iff abundant).2 ⟨program, s', errors, failed⟩
      · exact ⟨source, holds, statusOf_eq_zero_iff.1 status⟩
      · rintro ⟨other, holds', none⟩
        rw [holds.unique holds'] at none
        exact statusOf_eq_zero_iff.2 none

end Session

end Lox
