import Mathlib.Data.List.Pairwise
import Lox.Proofs.Evaluation.Course
import Lox.Proofs.Session.Stages

/-!
# Programs apart

The table of distances has one entry for an access, under an identity that no other access has, in
whichever program it is.  So programs do not get into each other's way: what the table says of the
accesses of one is what was recorded when it was resolved, whatever else is read, resolved or run.

* `parseEach` — one parse after another; `parseEach_minted` says that they share no identity.
* `Session.Played` — what comes of parses, runs and resolutions, with the programs that were parsed
  and those that were resolved.
* `Distances.Fits` — on the accesses of a program a table says what the program resolves to.
* `Moment.Reaches.distances` — the table does not change while a program runs.
* `Session.Apart` — what holds of such a session.
* `Session.programs_apart` — the table fits every program that was resolved, ever after.
-/

namespace Lox

open Eval Parse Resolution

/-! ## Parses

A parse takes its identities from where the one before it stopped.  So the accesses of all programs
together have identities that are pairwise different. -/

/-- What lists of tokens are parsed to, one after another. -/
def parseEach : List (List Token) → NodeId → List Parsed
  | [], _ => []
  | tokens :: rest, first => parse tokens first :: parseEach rest (parse tokens first).nextNode

/-- The identities of the accesses in programs. -/
def Stmt.idsOfEach (programs : List (List Stmt)) : List NodeId :=
  programs.flatMap Stmt.idsAll

/-- All identities of all programs are given out one after another, each once. -/
theorem parseEach_minted (sources : List (List Token)) (first : NodeId) :
    ∃ next,
      Minted first next (Stmt.idsOfEach ((parseEach sources first).map Parsed.statements)) := by
  induction sources generalizing first with
  | nil => exact ⟨first, .nil (Nat.le_refl _)⟩
  | cons tokens rest ih =>
      obtain ⟨next, others⟩ := ih (parse tokens first).nextNode
      exact ⟨next, (parse_minted tokens first).append others⟩

/-! ## The table while a program runs

Only a resolution writes to the table. -/

namespace Moment

/-- What is left of an evaluation finds the table as it was. -/
theorem Next.distances {p q : Moment} (h : p.Next q) :
    q.machine.distances = p.machine.distances := by
  have value {b e m v n} (he : Expr.eval (Callable.apply b) e m = .ok v n) :
      n.distances = m.distances := ((orderly.evaluate b e).of_ok he).distances
  have values {b es m vs n} (hes : Expr.evalAll (Callable.apply b) es m = .ok vs n) :
      n.distances = m.distances := ((orderly.evalAll (orderly.apply b) es).of_ok hes).distances
  have flow {b s m f n} (hs : Stmt.exec (Callable.apply b) b s m = .ok f n) :
      n.distances = m.distances := ((orderly.execute b s).of_ok hs).distances
  cases h with
  | body _ _ hn => exact ((orderly.bindParameters _ _).of_ok hn).distances
  | right hx | logicalRight hx | write hx | arguments hx | setValue hx | otherExpressions hx
  | yes hx | no hx | loopBody hx => exact value hx
  | call hf has => exact (values has).trans (value hf)
  | loopAgain he _ hbody => exact (flow hbody).trans (value he)
  | otherStatements hs => exact flow hs
  | _ => rfl

/-- Nor does a run of any length. -/
theorem Reaches.distances {p q : Moment} (h : p.Reaches q) :
    q.machine.distances = p.machine.distances := by
  induction h with
  | refl => rfl
  | tail _ next ih => exact next.distances.trans ih

end Moment

/-! ## Tables and programs

A table fits a program if it says of its accesses what their resolution recorded, and of those that
were not recorded nothing.  It suits a program if it says that or nothing of each access: then the
entries can be added, and the table fits the program afterwards. -/

/-- On the accesses of a program the table says what the program resolves to. -/
def Distances.Fits (table : Distances) (program : List Stmt) : Prop :=
  ∃ entries, Lox.resolve program = .ok entries ∧
    ∀ id ∈ Stmt.idsAll program, table[id]? = (Distances.add {} entries)[id]?

/-- The table says nothing of an access, or what the program of the access resolves to. -/
def Distances.Suits (table : Distances) (program : List Stmt) : Prop :=
  ∀ id ∈ Stmt.idsAll program, table[id]? = none ∨ ∃ entries, Lox.resolve program = .ok entries ∧
    table[id]? = (Distances.add {} entries)[id]?

section
variable {table : Distances} {program other : List Stmt} {entries : List Entry}

/-- A resolution records entries for accesses of the program only, at most one for each. -/
theorem keys_of_resolve (h : Lox.resolve program = .ok entries) :
    (entries.map Prod.fst).Subperm (Stmt.idsAll program) := by
  obtain ⟨after, hwalk⟩ := resolve_eq_ok.1 h
  exact Stmt.keys_of_resolveAll program hwalk

/-- A program that is resolved once more, or for the first time. -/
theorem Distances.Suits.add (suits : table.Suits program) (nodup : (Stmt.idsAll program).Nodup)
    (h : Lox.resolve program = .ok entries) : (table.add entries).Fits program := by
  refine ⟨entries, h, fun id hid => ?_⟩
  have keys : (entries.map Prod.fst).Nodup := by
    obtain ⟨keys, perm, sub⟩ := keys_of_resolve h
    exact perm.nodup_iff.1 (nodup.sublist sub)
  by_cases recorded : id ∈ entries.map Prod.fst
  · obtain ⟨⟨id, distance⟩, mem, rfl⟩ := List.mem_map.1 recorded
    rw [getElem?_add_of_mem keys mem, getElem?_add_of_mem keys mem]
  · rw [getElem?_add_of_not_mem recorded]
    rcases suits id hid with none | ⟨entries', h', same⟩
    · rw [none, getElem?_add_of_not_mem recorded]
      rfl
    · cases h.symm.trans h'
      exact same

/-- A table that fits a program also suits it: it can be told the same entries again. -/
theorem Distances.Fits.suits (fits : table.Fits program) : table.Suits program := by
  obtain ⟨entries, h, same⟩ := fits
  exact fun id hid => .inr ⟨entries, h, same id hid⟩

/-- A program that shares no access with the one that is resolved. -/
theorem Distances.getElem?_add_of_disjoint
    (disjoint : List.Disjoint (Stmt.idsAll other) (Stmt.idsAll program))
    (h : Lox.resolve program = .ok entries) {id : NodeId} (hid : id ∈ Stmt.idsAll other) :
    (table.add entries)[id]? = table[id]? :=
  getElem?_add_of_not_mem fun recorded => disjoint hid ((keys_of_resolve h).subset recorded)

end

/-! ## Sessions

The claim is about every session that can be made of parses, resolutions and runs in any order, so
it is shown of one such step at a time. -/

/-- The program of a source that was read, if it was. -/
def Outcome.programs : Outcome (List Stmt) → List (List Stmt)
  | done program => [program]
  | _ => []

theorem Outcome.programs_eq {outcome : Outcome (List Stmt)} (h : outcome.programs.length = 1) :
    outcome.programs = [outcome.program] := by
  cases outcome with
  | done program => rfl
  | _ => cases h

/-- A program, if it passes the walk, so that its distances are added. -/
def Stmt.resolvable (program : List Stmt) : List (List Stmt) :=
  match Lox.resolve program with
  | .ok _ => [program]
  | .error _ => []

namespace Session

/-- What comes of a new session: lists of tokens are parsed, here or elsewhere, with faults or
without; sources are run; and any program that was parsed is resolved, run, or run unresolved, as
often as wanted.  `read` are the programs that there are, `added` those that were resolved. -/
inductive Played (clock : Nat → Float) (sink : Sink) :
    Session → (read added : List (List Stmt)) → Prop
  | initial : Played clock sink (initial clock sink) [] []
  | parse {s read added} (h : Played clock sink s read added) (tokens : List Token) :
      Played clock sink { s with nextNode := (Lox.parse tokens s.nextNode).nextNode }
        (read ++ [(Lox.parse tokens s.nextNode).statements]) added
  | run {s read added} (h : Played clock sink s read added) (bound : Nat) (source : String) :
      Played clock sink (s.run bound source).2 (read ++ (s.read source).1.programs)
        (added ++ (s.read source).1.programs.flatMap Stmt.resolvable)
  | locals {s read added program} (h : Played clock sink s read added) (mem : program ∈ read) :
      Played clock sink (s.resolve program).2 read (added ++ Stmt.resolvable program)
  | exec {s read added program} (h : Played clock sink s read added) (mem : program ∈ read)
      (bound : Nat) :
      Played clock sink (s.runProgram bound program).2 read (added ++ Stmt.resolvable program)
  | unresolved {s read added program} (h : Played clock sink s read added) (mem : program ∈ read)
      (bound : Nat) : Played clock sink (s.interpret bound program).2 read added

/-- Programs do not share identities, and the table suits all of them; it fits those that were
resolved. -/
structure Apart (s : Session) (read added : List (List Stmt)) : Prop where
  minted : Minted 0 s.nextNode (Stmt.idsOfEach read)
  fresh : ∀ id, s.nextNode ≤ id → s.machine.distances[id]? = none
  suits : ∀ program ∈ read, s.machine.distances.Suits program
  fits : ∀ program ∈ added, program ∈ read ∧ s.machine.distances.Fits program

namespace Apart

variable {s s' : Session} {read added : List (List Stmt)} {program : List Stmt}

/-- No two accesses of a program that was read have the same identity. -/
theorem ids_nodup (h : s.Apart read added) (mem : program ∈ read) :
    (Stmt.idsAll program).Nodup :=
  (List.nodup_flatMap.1 h.minted.nodup).1 program mem

/-- No two programs that were read share an identity. -/
theorem disjoint (h : s.Apart read added) (mem : program ∈ read) {other : List Stmt}
    (mem' : other ∈ read) (ne : other ≠ program) :
    List.Disjoint (Stmt.idsAll other) (Stmt.idsAll program) :=
  have : Std.Symm (Function.onFun List.Disjoint Stmt.idsAll) :=
    ⟨fun _ _ h _ hid hid' => h hid' hid⟩
  (List.nodup_flatMap.1 h.minted.nodup).2.forall mem' mem ne

/-- The identities that were given out are below the next one. -/
theorem below (h : s.Apart read added) (mem : program ∈ read) {id : NodeId}
    (hid : id ∈ Stmt.idsAll program) : id < s.nextNode :=
  (h.minted.range id (List.mem_flatMap.2 ⟨program, mem, hid⟩)).2

/-- Nothing was parsed, and the table is the same. -/
theorem of_distances (h : s.Apart read added) (le : s.nextNode ≤ s'.nextNode)
    (same : s'.machine.distances = s.machine.distances) : s'.Apart read added := by
  refine ⟨⟨Nat.zero_le _, h.minted.nodup, fun id hid => ?_⟩, fun id later => ?_, ?_, ?_⟩
  · exact ⟨Nat.zero_le _, Nat.lt_of_lt_of_le (h.minted.range id hid).2 le⟩
  · rw [same]
    exact h.fresh id (Nat.le_trans le later)
  · rw [same]
    exact h.suits
  · rw [same]
    exact h.fits

theorem parse (h : s.Apart read added) {next : NodeId}
    (minted : Minted s.nextNode next (Stmt.idsAll program)) :
    ({ s with nextNode := next } : Session).Apart (read ++ [program]) added := by
  refine ⟨?_, fun id later => h.fresh id (Nat.le_trans minted.le later), ?_, fun other mem => ?_⟩
  · simpa only [Stmt.idsOfEach, List.flatMap_append, List.flatMap_singleton] using
      h.minted.append minted
  · intro other mem
    rcases List.mem_append.1 mem with old | new
    · exact h.suits other old
    · obtain rfl := List.mem_singleton.1 new
      exact fun id hid => .inl (h.fresh id (minted.range id hid).1)
  · exact ⟨List.mem_append_left _ (h.fits other mem).1, (h.fits other mem).2⟩

theorem resolve (h : s.Apart read added) (mem : program ∈ read) :
    (s.resolve program).2.Apart read (added ++ Stmt.resolvable program) := by
  cases hr : Lox.resolve program with
  | error fault =>
      simp only [Session.resolve, Stmt.resolvable, hr, List.append_nil]
      exact h
  | ok entries =>
      rw [resolve_of_ok hr]
      simp only [Stmt.resolvable, hr]
      have own : (s.machine.distances.add entries).Fits program :=
        (h.suits program mem).add (h.ids_nodup mem) hr
      have apart {other : List Stmt} (mem' : other ∈ read) (ne : other ≠ program) {id : NodeId}
          (hid : id ∈ Stmt.idsAll other) :
          (s.machine.distances.add entries)[id]? = s.machine.distances[id]? :=
        Distances.getElem?_add_of_disjoint (h.disjoint mem mem' ne) hr hid
      refine ⟨h.minted, fun id later => ?_, fun other mem' => ?_, fun other mem' => ?_⟩
      · rw [Distances.getElem?_add_of_not_mem fun recorded =>
          Nat.not_lt.2 later (h.below mem ((keys_of_resolve hr).subset recorded))]
        exact h.fresh id later
      · by_cases same : other = program
        · exact same ▸ own.suits
        · intro id hid
          rw [apart mem' same hid]
          exact h.suits other mem' id hid
      · rcases List.mem_append.1 mem' with old | new
        · by_cases same : other = program
          · exact same ▸ ⟨mem, own⟩
          · obtain ⟨read, entries', hr', fits⟩ := h.fits other old
            exact ⟨read, entries', hr', fun id hid => (apart read same hid).trans (fits id hid)⟩
        · obtain rfl := List.mem_singleton.1 new
          exact ⟨mem, own⟩

theorem interpret (h : s.Apart read added) (bound : Nat) (program : List Stmt) :
    (s.interpret bound program).2.Apart read added := by
  have kept := interpret_orderly bound program
  simp only [Session.interpret, perform]
  cases hi : Lox.interpret bound program s.machine with
  | ok a n => exact h.of_distances (Nat.le_refl _) (kept.of_ok hi).distances
  | error stop n =>
      cases stop <;> exact h.of_distances (Nat.le_refl _) (kept.of_error hi).1.distances

/-- A program was resolved and run, in one go; it counts as added if its resolution found no
fault. -/
theorem runProgram (h : s.Apart read added) (mem : program ∈ read) (bound : Nat) :
    (s.runProgram bound program).2.Apart read (added ++ Stmt.resolvable program) := by
  have resolved := h.resolve mem
  cases hr : Lox.resolve program with
  | ok entries =>
      rw [resolve_of_ok hr] at resolved
      simp only [Session.runProgram, resolve_of_ok hr]
      exact resolved.interpret bound program
  | error fault =>
      simp only [Session.resolve, hr] at resolved
      simp only [Session.runProgram, Session.resolve, hr]
      exact resolved

/-- A source was read, resolved and run; what it was read to counts as read, even if it was not
run. -/
theorem run (h : s.Apart read added) (bound : Nat) (source : String) :
    (s.run bound source).2.Apart (read ++ (s.read source).1.programs)
      (added ++ (s.read source).1.programs.flatMap Stmt.resolvable) := by
  have later : (s.read source).2.Apart read added :=
    h.of_distances nextNode_read (congrArg Machine.distances machine_read)
  cases hread : s.read source with
  | mk outcome s' =>
      cases outcome with
      | done program =>
          obtain ⟨-, -, rfl, rfl⟩ := read_eq_done hread
          have minted : Minted s.nextNode (s.parsed source).nextNode
              (Stmt.idsAll (s.parsed source).statements) := minted_parsed
          have parsed := (h.parse minted).runProgram
            (List.mem_append_right read (List.mem_singleton_self _)) bound
          simpa only [Session.run, hread, Outcome.programs, List.flatMap_singleton] using parsed
      | failed errors =>
          rw [hread] at later
          simpa only [Session.run, hread, Outcome.programs, List.flatMap_nil,
            List.append_nil] using later
      | exhausted =>
          rw [hread] at later
          simpa only [Session.run, hread, Outcome.programs, List.flatMap_nil,
            List.append_nil] using later

end Apart

/-- **Every session is so**, whatever was done with it. -/
theorem Played.apart {clock : Nat → Float} {sink : Sink} {s : Session}
    {read added : List (List Stmt)} (h : Played clock sink s read added) : s.Apart read added := by
  induction h with
  | initial => exact ⟨.nil (Nat.le_refl _), fun _ _ => rfl, by simp, by simp⟩
  | parse _ tokens ih => exact ih.parse (parse_minted tokens _)
  | run _ bound source ih => exact ih.run bound source
  | locals _ mem ih => exact ih.resolve mem
  | exec _ mem bound ih => exact ih.runProgram mem bound
  | unresolved _ _ bound ih => exact ih.interpret bound _

/-- **Programs are apart.**  However many lists of tokens are parsed, with faults or without, no two
accesses in what they are parsed to have one identity.  So in a session, once a program was resolved
the table says of its accesses what the program alone resolves to, whatever is parsed, resolved and
run then; and it says so at every moment of the run of any program. -/
theorem programs_apart :
    (∀ (sources : List (List Token)) (first : NodeId),
      (Stmt.idsOfEach ((parseEach sources first).map Parsed.statements)).Nodup) ∧
    ∀ {clock : Nat → Float} {sink : Sink} {s : Session} {read added : List (List Stmt)},
      Played clock sink s read added → (Stmt.idsOfEach read).Nodup ∧
        ∀ program ∈ added, s.machine.distances.Fits program ∧
          ∀ bound other q, Moment.Reaches ⟨bound, .statements other, s.machine⟩ q →
            q.machine.distances.Fits program := by
  constructor
  · intro sources first
    obtain ⟨next, minted⟩ := parseEach_minted sources first
    exact minted.nodup
  · intro clock sink s read added played
    refine ⟨played.apart.minted.nodup, fun program mem => ?_⟩
    have fits := (played.apart.fits program mem).2
    refine ⟨fits, fun bound other q reaches => ?_⟩
    rw [reaches.distances]
    exact fits

/-- A function keeps a variable of a block; then a source is refused, and another one, with blocks
of its own, calls the function.  The access in the function still reaches out of one scope. -/
theorem programs_apart_kept_function :
    let begun := initial (fun _ => 0) {}
    let source := "var g; \x7b var a; fun f() \x7b print a; \x7d g = f; \x7d"
    let program := (begun.read source).1.program
    let s := (((begun.run 9 source).2.run 9 "\x7b var b; \x7b return b; \x7d \x7d").2.run 9
      "\x7b var c; \x7b g(); print c; \x7d \x7d").2
    s.machine.distances.Fits program ∧ s.machine.distances[0]? = some 1 := by
  intro begun source program s
  have read : (begun.read source).1.programs = [program] :=
    Outcome.programs_eq (by decide +kernel)
  have resolved : (Lox.resolve program).toOption = some [(0, 1), (2, 0)] := by decide +kernel
  have played : Played (fun _ => 0) {} s _ _ := ((Played.initial.run 9 source).run 9 _).run 9 _
  have fits : s.machine.distances.Fits program := by
    refine ((programs_apart.2 played).2 program ?_).1
    refine List.mem_append_left _ (List.mem_append_left _ ?_)
    cases hr : Lox.resolve program with
    | ok entries =>
        rw [read, List.nil_append, List.flatMap_singleton]
        simp [Stmt.resolvable, hr]
    | error fault =>
        rw [hr] at resolved
        cases resolved
  refine ⟨fits, ?_⟩
  obtain ⟨entries, hr, same⟩ := fits
  rw [hr] at resolved
  obtain rfl : entries = [(0, 1), (2, 0)] := Option.some.inj resolved
  rw [same 0 (by decide +kernel)]
  rfl

end Session

end Lox
