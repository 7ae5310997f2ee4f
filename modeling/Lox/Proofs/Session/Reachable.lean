import Lox.Proofs.Evaluation.Agreement
import Lox.Proofs.Parse.Shape
import Lox.Proofs.Resolution.Table
import Lox.Proofs.Scan.Join
import Lox.Session

/-!
# Sessions that sources lead to

A session is begun and then runs one source after another, whatever becomes of each.  Between two
of them the environment is that of the globals, no call is in progress, and every function has the
environment its body was resolved in.

What holds between two sources is proved by induction on the runs.  A run is divided into its stages
first: reading changes the count of identities, resolving adds to the table, and both leave the
machine otherwise as it was; only the last stage runs anything, and whether it ends or fails, it
keeps environments and scopes in step and restores the environment it began in.

* `Session.Reached` — the sessions, with the programs that were read on the way.
* `Session.Ready` — what holds of a session between two sources.
* `Session.Reached.ready` — it holds of all of them.
-/

namespace Lox

open Resolution

/-! ## Stages

Each stage of a run is opened once, into what it did if it succeeded; the lemmas behind this section
do not unfold a run. -/

namespace Session

variable {s s' : Session} {source : String} {program : List Stmt}

/-- The parse of a source. -/
def parsed (source : String) (s : Session) : Parsed :=
  parse (Scan.innerTokens source ++ [Scan.endToken source]) s.nextNode

/-- A parse gives out the identities of the accesses in its program, one after another. -/
theorem minted_parsed : Parse.Minted s.nextNode (s.parsed source).nextNode
    (Stmt.idsAll (s.parsed source).statements) :=
  parse_minted _ _

/-- A source without a syntax fault has its declarations where the grammar has them. -/
theorem shaped_parsed (h : (s.parsed source).faults = []) :
    Stmt.ShapedAll (s.parsed source).statements :=
  shaped_of_parse (fun _ ht => Scan.ne_eof_of_mem_innerTokens ht) rfl h

/-- A source that was read without a fault. -/
theorem read_eq_done (h : s.read source = (.done program, s')) :
    Scan.faults (scan source) = [] ∧ (s.parsed source).faults = [] ∧
      program = (s.parsed source).statements ∧
      s' = { s with nextNode := (s.parsed source).nextNode } := by
  simp only [read, Scan.tokens_scan] at h
  split at h
  next scanned =>
    split at h
    next faultless =>
      obtain ⟨hp, hs⟩ := Prod.mk.inj h
      injection hp with hp
      refine ⟨scanned, ?_, hp.symm, hs.symm⟩
      simpa [Parsed.diagnostics, parsed] using faultless
    next => cases (Prod.mk.inj h).1
  next => cases (Prod.mk.inj h).1

theorem read_of_faultless (source : String) (scanned : Scan.faults (scan source) = [])
    (h : (s.parsed source).faults = []) : s.read source =
      (.done (s.parsed source).statements, { s with nextNode := (s.parsed source).nextNode }) := by
  have diagnostics : (s.parsed source).diagnostics = [] := by simp [Parsed.diagnostics, h]
  simp only [parsed, ← Scan.tokens_scan] at diagnostics
  simp only [read, scanned, diagnostics, parsed, ← Scan.tokens_scan]

/-- The machine takes no part in reading a source. -/
theorem machine_read : (s.read source).2.machine = s.machine := by
  simp only [read]
  split
  · split <;> rfl
  · rfl

/-- Reading a source takes no identity back. -/
theorem nextNode_read : s.nextNode ≤ (s.read source).2.nextNode := by
  simp only [read]
  split
  · split <;> exact (parse_minted _ _).le
  · exact Nat.le_refl _

/-- A resolution that succeeds adds the entries of the walk to the table, and does nothing else. -/
theorem resolve_eq_done (h : s.resolve program = (.done (), s')) :
    ∃ entries, Lox.resolve program = .ok entries ∧
      s' = { s with
        machine := { s.machine with distances := s.machine.distances.add entries } } := by
  simp only [resolve] at h
  split at h
  next entries he => exact ⟨entries, he, (Prod.mk.inj h).2.symm⟩
  next => cases (Prod.mk.inj h).1

/-- It succeeds if the walk finds no fault. -/
theorem resolve_of_ok {entries : List Entry} (h : Lox.resolve program = .ok entries) :
    s.resolve program = (.done (), { s with
      machine := { s.machine with distances := s.machine.distances.add entries } }) := by
  simp only [resolve, h]

/-- A step that is performed to its end leaves its machine to the session. -/
theorem perform_eq_done {step : Eval Unit} {m : Machine} {next : NodeId}
    (h : (perform step ⟨m, next⟩).1 = .done ()) :
    ∃ n, step m = .ok () n ∧ (perform step ⟨m, next⟩).2 = ⟨n, next⟩ := by
  simp only [perform] at h ⊢
  split at h
  next hs => exact ⟨_, hs, rfl⟩
  next => cases h
  next => cases h

/-- A step that is performed and fails has failed in the machine of the session. -/
theorem perform_eq_failed {α : Type} {step : Eval α} {d : Diagnostic}
    (h : (s.perform step).1 = .failed [d]) : ∃ n, step s.machine = .error (.failed d) n := by
  simp only [perform] at h
  split at h
  next => cases h
  next hs =>
    cases h
    exact ⟨_, hs⟩
  next => cases h

theorem run_eq_interpret {s'' : Session} (hread : s.read source = (.done program, s'))
    (hresolve : s'.resolve program = (.done (), s'')) (bound : Nat) :
    s.run bound source = s''.interpret bound program := by
  simp only [run, hread, runProgram, hresolve]

end Session

/-- The program of a source that was read without a fault. -/
def Outcome.program : Outcome (List Stmt) → List Stmt
  | done program => program
  | _ => []

/-- How far a source can get. -/
inductive Session.RunCases (bound : Nat) (source : String) (s : Session) : Prop
  | unread (unread : (s.read source).1.program = []) {next : NodeId} (le : s.nextNode ≤ next)
      (same : (s.run bound source).2 = { s with nextNode := next })
  | refused {program : List Stmt} {s' : Session} (hread : s.read source = (.done program, s'))
      (same : (s.run bound source).2 = s')
  | interpreted {program : List Stmt} {s' s'' : Session}
      (hread : s.read source = (.done program, s'))
      (hresolve : s'.resolve program = (.done (), s''))

theorem Session.run_cases (bound : Nat) (source : String) (s : Session) :
    RunCases bound source s := by
  have same : (s.read source).2 = { s with nextNode := (s.read source).2.nextNode } :=
    congrArg (Session.mk · _) machine_read
  have le : s.nextNode ≤ (s.read source).2.nextNode := nextNode_read
  cases hread : s.read source with
  | mk outcome s' =>
      cases outcome with
      | done program =>
          cases hentries : Lox.resolve program with
          | ok entries => exact .interpreted hread (resolve_of_ok hentries)
          | error fault =>
              refine .refused hread ?_
              simp only [run, hread, runProgram, resolve, hentries]
      | failed errors =>
          refine .unread (by simp only [hread, Outcome.program]) le ?_
          rw [← same]
          simp only [run, hread]
      | exhausted =>
          refine .unread (by simp only [hread, Outcome.program]) le ?_
          rw [← same]
          simp only [run, hread]

/-! ## Sequences of runs

A session is reached if it is begun and runs sources; the programs that were accepted on the way are
kept with it, for the table is about them. -/

/-- A session after some sources, with the programs that were read from them. -/
inductive Session.Reached (clock : Nat → Float) (sink : Sink) : Session → List Stmt → Prop
  | initial : Reached clock sink (initial clock sink) []
  | run {s programs} (h : Reached clock sink s programs) (bound : Nat) (source : String) :
      Reached clock sink (s.run bound source).2 (programs ++ (s.read source).1.program)

/-- What the programs of a session have left. -/
def Session.ledger (s : Session) (programs : List Stmt) : Ledger :=
  ⟨s.machine.distances, Stmt.selfWritesAll false programs, s.nextNode⟩

/-- Nothing is being evaluated, and every function has the environment its body was resolved in. -/
structure Session.Ready (s : Session) (programs : List Stmt) : Prop where
  tidy : (s.ledger programs).Tidy
  machine : s.machine.Ok (s.ledger programs)
  globals : s.machine.Owns []
  depth : s.machine.depth = 0

/-! ## Each stage leaves the session ready

One lemma for each stage, then one for a run and one for all sequences of runs. -/

theorem Stmt.selfWritesAll_append (enclosed : Bool) (ss ss' : List Stmt) :
    Stmt.selfWritesAll enclosed (ss ++ ss') =
      Stmt.selfWritesAll enclosed ss ++ Stmt.selfWritesAll enclosed ss' := by
  induction ss with
  | nil => rfl
  | cons s ss ih => rw [List.cons_append, selfWritesAll, ih, selfWritesAll, List.append_assoc]

/-- At the top level it is enough that the environment is that of the globals. -/
theorem Machine.owns_nil {m : Machine} :
    m.Owns [] ↔ m.env = Machine.globals ∧ 0 < m.frames.size := by
  refine ⟨fun h => ?_, fun ⟨henv, size⟩ => ⟨?_, by simp [Scopes.Settled], by simp⟩⟩
  · rcases henv : m.env with ⟨innermost, enclosing⟩
    have covers := h.covers
    rw [henv] at covers
    cases enclosing with
    | nil => exact ⟨congrArg (Env.mk · []) covers.1, covers.2⟩
    | cons => exact covers.elim
  · rw [henv]
    exact ⟨rfl, size⟩

/-- A step that leaves the environment alone, however it ends, leaves that of the globals. -/
theorem Machine.Owns.evolve_globals {m n : Machine} {defines : Bool} (h : m.Owns [])
    (evolves : m.Evolves defines n) : n.Owns [] := by
  obtain ⟨henv, size⟩ := Machine.owns_nil.1 h
  exact Machine.owns_nil.2 ⟨evolves.env.trans henv, Nat.lt_of_lt_of_le size evolves.grows.size⟩

/-- A machine with the distances of a later ledger. -/
theorem Machine.Ok.extend {m : Machine} {l l' : Ledger} (h : m.Ok l) (hl : l.Extends l') :
    ({ m with distances := l'.distances } : Machine).Ok l' :=
  ⟨rfl, fun f x v hv => (h.frames f x v hv).mono hl .refl,
    fun i x v hv => (h.objects i x v hv).mono hl .refl⟩

namespace Session

variable {s s' s'' : Session} {programs program : List Stmt} {source : String}

/-- A new session is ready for a source: its one function, the clock, needs no environment. -/
theorem ready_initial (clock : Nat → Float) (sink : Sink) : (initial clock sink).Ready [] := by
  refine ⟨Ledger.tidy_empty,
    ⟨rfl, fun f x v hv => Machine.lookup_initial hv ▸ trivial, fun i x v hv => ?_⟩,
    Machine.owns_nil.2 ⟨rfl, by simp [initial, Machine.initial]⟩, rfl⟩
  rw [initial, Machine.fields_initial] at hv
  cases hv

theorem ledger_add {entries : List Entry} {next : NodeId} :
    (s.ledger programs).add program entries next = ledger
      ⟨{ s.machine with distances := s.machine.distances.add entries }, next⟩
      (programs ++ program) := by
  simp only [Ledger.add, ledger, Stmt.selfWritesAll_append]

/-- Identities that no tree got do no harm. -/
theorem Ready.skip (h : s.Ready programs) {next : NodeId} (le : s.nextNode ≤ next) :
    ({ s with nextNode := next } : Session).Ready programs := by
  have later : (s.ledger programs).Extends (ledger { s with nextNode := next } programs) :=
    ⟨le, fun _ _ => rfl, fun _ _ => Iff.rfl⟩
  refine ⟨⟨fun id hid => h.tidy.distances id (Nat.le_trans le hid),
    fun id hid => Nat.lt_of_lt_of_le (h.tidy.selfWrites id hid) le⟩, ?_, h.globals, h.depth⟩
  have := h.machine.extend later
  exact this

/-- A program that was read, and entries for some of its accesses. -/
theorem Ready.add (h : s.Ready programs) {entries : List Entry}
    (keys : (entries.map Prod.fst).Subperm (Stmt.idsAll (s.parsed source).statements)) :
    (⟨{ s.machine with distances := s.machine.distances.add entries },
      (s.parsed source).nextNode⟩ : Session).Ready (programs ++ (s.parsed source).statements) := by
  have minted : Parse.Minted s.nextNode _ (Stmt.idsAll (s.parsed source).statements) :=
    minted_parsed
  have later : (s.ledger programs).Extends _ := Ledger.extends_add minted keys
  have tidy := h.tidy.add minted keys
  have machine := h.machine.extend later
  rw [ledger_add] at tidy machine
  exact ⟨tidy, machine, ⟨h.globals.covers, h.globals.settled, h.globals.own⟩, h.depth⟩

/-- A program that was read and resolved: the session is ready to run it. -/
theorem Ready.resolved (h : s.Ready programs) (hread : s.read source = (.done program, s'))
    (hresolve : s'.resolve program = (.done (), s'')) :
    s''.Ready (programs ++ program) ∧
      ∃ after, Stmt.ResolvedAll (s''.ledger (programs ++ program)) [] program after := by
  obtain ⟨-, faultless, rfl, rfl⟩ := read_eq_done hread
  obtain ⟨entries, hentries, rfl⟩ := resolve_eq_done hresolve
  obtain ⟨after, hwalk⟩ := resolve_eq_ok.1 hentries
  have resolved := Ledger.resolvedAll_add h.tidy minted_parsed (shaped_parsed faultless) hwalk
  rw [ledger_add] at resolved
  exact ⟨h.add (Stmt.keys_of_resolveAll _ hwalk), after, resolved⟩

/-- A step that leaves every function its environment, however it ends. -/
theorem Ready.perform {α : Type} {step : Eval α} {Q : α → Machine → Prop} (h : s.Ready programs)
    (keeps : Eval.Keeps true (s.ledger programs) step s.machine Q) :
    (s.perform step).2.Ready programs := by
  obtain ⟨m, nextNode⟩ := s
  have left {n : Machine} (hn : n.Ok (ledger ⟨m, nextNode⟩ programs)) (evolves : m.Evolves true n) :
      (⟨n, nextNode⟩ : Session).Ready programs := by
    have same : ledger ⟨n, nextNode⟩ programs = ledger ⟨m, nextNode⟩ programs := by
      simp only [ledger, evolves.distances]
    exact ⟨same ▸ h.tidy, same ▸ hn, h.globals.evolve_globals evolves,
      evolves.depth.trans h.depth⟩
  unfold Eval.Keeps at keeps
  simp only [Session.perform]
  cases hs : step m with
  | ok a n =>
      rw [hs] at keeps
      exact left keeps.1 keeps.2.1
  | error stop n =>
      rw [hs] at keeps
      cases stop <;> exact left keeps.1 keeps.2

/-- A source leaves the session ready, whatever becomes of it. -/
theorem Ready.run (h : s.Ready programs) (bound : Nat) (source : String) :
    (s.run bound source).2.Ready (programs ++ (s.read source).1.program) := by
  cases run_cases bound source s with
  | unread unread le same =>
      rw [unread, same, List.append_nil]
      exact h.skip le
  | refused hread same =>
      obtain ⟨-, -, rfl, rfl⟩ := read_eq_done hread
      rw [hread, same]
      have keys : ([] : List Entry).map Prod.fst |>.Subperm (Stmt.idsAll (s.parsed source).statements) :=
        List.nil_subperm
      exact h.add keys
  | interpreted hread hresolve =>
      obtain ⟨ready, after, resolved⟩ := h.resolved hread hresolve
      rw [hread, run_eq_interpret hread hresolve]
      exact ready.perform (interpret_keeps bound resolved ready.machine ready.globals)

/-- **Every session is ready for the next source.** -/
theorem Reached.ready {clock : Nat → Float} {sink : Sink} (h : Reached clock sink s programs) :
    s.Ready programs := by
  induction h with
  | initial => exact ready_initial clock sink
  | run _ bound source ih => exact ih.run bound source

end Session

end Lox
