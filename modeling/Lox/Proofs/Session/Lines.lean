import Lox.Proofs.Parse.Order
import Lox.Proofs.Scan.Lines
import Lox.Proofs.Session.Pieces
import Lox.Proofs.Session.Stages

/-!
# Diagnostics are about lines of the source

All tokens of a source are on its lines, so its program does not change when other lines are moved
to these (`Session.nearest_statements`).  A run of the moved program blames its failures on lines of
the source only, functions that are called later included, and the run of the program itself is like
it.

* `Scan.IsLine`, `Scan.nearest` — the lines of a source, and the one of them that is nearest.
* `Session.Refuses.isLine`, `Session.Accepts.isLine` — what is reported before a run, and by it.
* `diagnostics_on_lines` — **every diagnostic is about a line of the source**, and the faults of a
  scan and of a parse are in order.
-/

namespace Lox

/-! ## The lines of a source

A source has one line more than it has line feeds.  Every item of a scan is on one of them, so what
is made of the items, tokens and faults alike, is on lines of the source. -/

namespace Scan

/-- A source has as many lines as line feeds, and one more. -/
def IsLine (source : String) (line : Nat) : Prop :=
  1 ≤ line ∧ line ≤ 1 + source.toList.count '\n'

/-- The line of a source that is nearest to some line. -/
def nearest (source : String) (line : Nat) : Nat :=
  max 1 (min line (1 + source.toList.count '\n'))

variable {source : String} {line : Nat}

/-- The nearest line is a line of the source. -/
theorem isLine_nearest (source : String) (line : Nat) : IsLine source (nearest source line) := by
  unfold IsLine nearest
  omega

/-- On the lines of the source nothing is moved. -/
theorem nearest_eq (h : IsLine source line) : nearest source line = line := by
  unfold IsLine at h
  unfold nearest
  omega

theorem isLine_of_sublist {lines : List Nat}
    (sub : lines.Sublist ((scan source).map Item.line)) : ∀ line ∈ lines, IsLine source line := by
  intro line hline
  obtain ⟨item, hitem, rfl⟩ := List.mem_map.1 (sub.subset hline)
  exact (scan_sorted source).2 item hitem

theorem isLine_of_mem_faults {d : Diagnostic} (h : d ∈ faults (scan source)) :
    IsLine source d.line :=
  isLine_of_sublist (faults_sublist _) _ (List.mem_map_of_mem h)

/-- Every token, the one for the end included, is on a line of the source. -/
theorem isLine_of_mem_tokens {t : Token} (h : t ∈ tokens (scan source)) : IsLine source t.line :=
  isLine_of_sublist (tokens_sublist _) _ (List.mem_map_of_mem h)

/-- The faults of a parse are in order, between the first line of the source and the last. -/
theorem parse_sorted (source : String) (node : NodeId) :
    (1 :: ((parse (tokens (scan source)) node).faults.map Prod.fst ++
      [1 + source.toList.count '\n'])).Pairwise (· ≤ ·) := by
  have sorted : (1 :: (tokens (scan source)).map Token.line).Pairwise (· ≤ ·) :=
    List.pairwise_cons.2 ⟨List.forall_mem_map.2 fun t ht => (isLine_of_mem_tokens ht).1,
      (scan_sorted source).1.sublist (tokens_sublist _)⟩
  rw [tokens_scan] at sorted ⊢
  exact parse_ordered (fun _ ht => ne_eof_of_mem_innerTokens ht) rfl sorted node

theorem isLine_of_mem_diagnostics {node : NodeId} {d : Diagnostic}
    (h : d ∈ (parse (tokens (scan source)) node).diagnostics) : IsLine source d.line := by
  obtain ⟨fault, hfault, rfl⟩ := List.mem_map.1 h
  obtain ⟨least, sorted⟩ := List.pairwise_cons.1 (parse_sorted source node)
  have found := List.mem_map_of_mem (f := Prod.fst) hfault
  exact ⟨least _ (List.mem_append_left _ found),
    (List.pairwise_append.1 sorted).2.2 _ found _ (List.mem_singleton_self _)⟩

end Scan

open Scan Resolution

/-! ## Outcomes side by side

The run of a program and that of the moved program fail together.  The lines of their failures are
then moved in the same way, and those of the moved program are lines of the source. -/

/-- Of two outcomes that differ in lines, the second one blames a line that the first one has a
counterpart of. -/
theorem Outcome.UpToLines.blamed {lines : Nat → Nat → Prop} {o o' : Outcome Unit}
    (h : Outcome.UpToLines lines o o') :
    ∀ d ∈ o'.errors, (∀ fault, d ≠ .output fault) → ∃ line, lines line d.line := by
  intro d hd written
  cases h with
  | done => cases hd
  | exhausted => cases hd
  | runtime blamed =>
      obtain rfl := List.mem_singleton.1 hd
      exact ⟨_, blamed⟩
  | output fault => exact absurd (List.mem_singleton.1 hd) (written fault)

namespace Session

variable {s s' : Session} {source : String} {program : List Stmt} {errors : List Diagnostic}

/-! ## Programs

The program of a source is made of its tokens, so it is the same when all lines are moved to the
nearest line of the source. -/

/-- A program does not change when other lines are moved to those of its source. -/
theorem nearest_statements (faultless : (s.parsed source).faults = []) :
    Stmt.relabelAll (fun _ => 0) id (s.parsed source).statements =
      Stmt.relabelAll (fun _ => 0) (nearest source) (s.parsed source).statements := by
  have fixed : (innerTokens source).map (Token.mapLine (nearest source)) = innerTokens source := by
    refine (List.map_congr_left fun t ht => ?_).trans (List.map_id _)
    have within : IsLine source t.line :=
      isLine_of_mem_tokens (tokens_scan source ▸ List.mem_append_left _ ht)
    rw [Token.mapLine, nearest_eq within]
    rfl
  have moved := (parse_mapLine (fun _ ht => ne_eof_of_mem_innerTokens ht) rfl
    (rfl : (endToken source).kind = .eof) faultless (nearest source) s.nextNode).2
  rw [fixed] at moved
  have composed := Stmt.relabelAll_relabelAll id (fun _ => 0) (nearest source) id
    (s.parsed source).statements
  simp only [Stmt.relabelAll_eq_map] at composed ⊢
  exact moved.trans composed

/-! ## Reports

A source is refused with diagnostics of one stage, or fails with one diagnostic of its run; each of
them is looked at in turn. -/

/-- What is reported before a run. -/
theorem Refuses.isLine (h : s.Refuses source errors) : ∀ d ∈ errors, IsLine source d.line := by
  intro d hd
  cases h with
  | scan faulty => exact isLine_of_mem_faults hd
  | parse scanned faulty =>
      rw [parsed, ← tokens_scan] at hd
      exact isLine_of_mem_diagnostics hd
  | @resolve program s' line fault hread hresolve =>
      obtain ⟨-, faultless, rfl, -⟩ := read_eq_done hread
      obtain rfl := List.mem_singleton.1 hd
      have same := congrArg Lox.resolve (nearest_statements faultless)
      simp only [Stmt.relabelAll_eq_map, resolve_relabel, hresolve, relabelled] at same
      have onLine : line = nearest source line := congrArg Prod.fst (Except.error.inj same)
      show IsLine source line
      exact onLine ▸ isLine_nearest source line

/-- A program that does not change when other lines are moved to those of a source fails on a line
of it: the moved program does, and the two run side by side. -/
theorem isLine_of_interpret {clock : Nat → Float} {sink : Sink} {l : Ledger} {after : Scopes}
    (fresh : s.machine = { Machine.initial clock sink with distances := l.distances })
    (resolved : Stmt.ResolvedAll l [] program after)
    (same : Stmt.relabelAll (fun _ => 0) id program =
      Stmt.relabelAll (fun _ => 0) (nearest source) program) (bound : Nat) :
    ∀ d ∈ (s.interpret bound program).1.errors, (∀ fault, d ≠ .output fault) →
      IsLine source d.line := by
  obtain ⟨m, next⟩ := s
  obtain rfl : m = _ := fresh
  intro d hd written
  let L : Likeness := .upToLines (fun _ line => IsLine source line) l.distances l.distances
  have plain : L.Plain l l (nearest source) (nearest source) :=
    Likeness.plain_upToLines (isLine_nearest source)
  have like := (Stmt.likeAll_of_same plain program same resolved resolved).1
  have ends := (perform_upToLines next next
    (interpret_like bound like (Machine.alike_initial clock sink))).1
  obtain ⟨_, onLine⟩ := ends.blamed d hd written
  exact onLine

/-- What is reported by a run, on a machine on which nothing has run. -/
theorem Accepts.isLine {clock : Nat → Float} {sink : Sink} {next : NodeId}
    (h : Accepts ⟨.initial clock sink, next⟩ source program s') (bound : Nat) :
    ∀ d ∈ (s'.interpret bound program).1.errors, (∀ fault, d ≠ .output fault) →
      IsLine source d.line := by
  obtain ⟨between, hread, hresolve⟩ := h
  have ready : Ready ⟨.initial clock sink, next⟩ [] :=
    (ready_initial clock sink).skip (Nat.zero_le next)
  obtain ⟨-, after, resolved⟩ := ready.resolved hread hresolve
  have fresh : s'.machine = { Machine.initial clock sink with
      distances := s'.machine.distances } := by
    obtain ⟨-, -, -, rfl⟩ := read_eq_done hread
    obtain ⟨entries, -, rfl⟩ := resolve_eq_done hresolve
    rfl
  obtain ⟨-, faultless, rfl, -⟩ := read_eq_done hread
  exact isLine_of_interpret fresh resolved (nearest_statements faultless) bound

end Session

/-- **Every diagnostic is about a line of the source**, if it is the first one of its session and
the diagnostic is about a line at all, as a failure to write is not.  The faults of a scan come in
the order of their lines, and so do those of a parse, also of tokens whose scan has faults. -/
theorem diagnostics_on_lines (source : String) :
    (∀ (clock : Nat → Float) (sink : Sink) (next : NodeId) (bound : Nat),
      ∀ d ∈ (Session.run bound source ⟨.initial clock sink, next⟩).1.errors,
        (∀ fault, d ≠ .output fault) → 1 ≤ d.line ∧ d.line ≤ 1 + source.toList.count '\n') ∧
    ((faults (scan source)).map Diagnostic.line).Pairwise (· ≤ ·) ∧
    ∀ node : NodeId, ((parse (tokens (scan source)) node).diagnostics.map Diagnostic.line).Pairwise
      (· ≤ ·) := by
  refine ⟨fun clock sink next bound d hd written => ?_,
    (scan_sorted source).1.sublist (faults_sublist _), fun node => ?_⟩
  · let s : Session := ⟨.initial clock sink, next⟩
    rcases s.accepts_or_refuses source with ⟨program, s', accepts⟩ | ⟨errors, refuses⟩
    · rw [Session.run_of_accepts accepts] at hd
      exact accepts.isLine bound d hd written
    · obtain ⟨left, same⟩ := Session.run_of_refuses refuses
      rw [same] at hd
      exact refuses.isLine d hd
  · have sorted := (parse_sorted source node).of_cons.sublist (List.sublist_append_left _ _)
    simpa [Parsed.diagnostics, Function.comp_def, Diagnostic.line] using sorted

/-- A function that fails when it is called, on a line further up. -/
theorem diagnostics_on_lines_called_later :
    let source := "fun f() \x7b\n return y;\n\x7d\nf();"
    let d : Diagnostic := .runtime 2 (.undefinedVariable "y")
    d ∈ (Session.run 9 source ⟨.initial (fun _ => 0) {}, 0⟩).1.errors ∧
      (∀ fault, d ≠ .output fault) ∧ 1 ≤ d.line ∧ d.line ≤ 1 + source.toList.count '\n' := by
  intro source d
  have reported : d ∈ (Session.run 9 source ⟨.initial (fun _ => 0) {}, 0⟩).1.errors := by
    decide +kernel
  have written : ∀ fault, d ≠ .output fault := nofun
  exact ⟨reported, written, (diagnostics_on_lines source).1 _ _ _ _ d reported written⟩

end Lox
