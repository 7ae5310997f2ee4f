import Lox.Proofs.Evaluation.Course
import Lox.Proofs.Likeness.Sessions
import Lox.Proofs.Renaming.Runs
import Lox.Proofs.Session.Reachable

/-!
# Local names are only names

A program is read and resolved, and one of its locals is renamed.  The walk records the same
distances for the renamed program, and in a new session it prints the same and ends in the same way:
only where an access to that local fails is the other name in the message.

Three things are put together here: the walk over the renamed program, which has the same entries;
the likeness of the two trees, by which their runs end alike; and what the likeness leaves open, the
name in the message of a failure, which is traced back to the access that failed.

* `Likeness.renaming` — what the two programs differ in.
* `Outcome.Renamed` — how the two runs end.
* `local_renamed` — **the two programs do the same**.
-/

namespace Lox

open Resolution

/-- Accesses of one identity in two programs. -/
def Access.Paired (program program' : List Stmt) (id : NodeId) (name : Token) (id' : NodeId)
    (name' : Token) : Prop :=
  id' = id ∧ ∃ assigns, ⟨id, name, assigns⟩ ∈ Stmt.accessesAll program ∧
    ⟨id, name', assigns⟩ ∈ Stmt.accessesAll program'

/-- The programs differ in the names of one scope. -/
def Likeness.renaming (table : Distances) (x y : String) (program program' : List Stmt) :
    Likeness where
  lines := Eq
  rename := Equiv.swap x y
  injective _ _ h := (Equiv.swap x y).injective h
  left := table
  right := table
  braces := false
  accesses := Access.Paired program program'

/-- Two programs end in the same way, unless both fail at an access that only the second one calls
by the other name. -/
inductive Outcome.Renamed (x y : String) (program program' : List Stmt) :
    Outcome Unit → Outcome Unit → Prop
  | same {o} (h : ∀ line, o ≠ .failed [.runtime line (.undefinedVariable y)]) :
      Renamed x y program program' o o
  | other {id name name' assigns} (h : ⟨id, name, assigns⟩ ∈ Stmt.accessesAll program)
      (h' : ⟨id, name', assigns⟩ ∈ Stmt.accessesAll program') (hx : name.lexeme = x)
      (hy : name'.lexeme = y) (line : name'.line = name.line) :
      Renamed x y program program' (.failed [.runtime name.line (.undefinedVariable x)])
        (.failed [.runtime name'.line (.undefinedVariable y)])

section
variable {table : Distances} {x y : String} {program program' : List Stmt}

/-- Each program names its own access, which is the same one. -/
theorem Outcome.Renamed.of_paired (unused : Stmt.Unused y program) {renamed : Bool}
    {id id' : NodeId} {name name' : Token}
    (like : name.Like (.renaming table x y program program') renamed name')
    (paired : Access.Paired program program' id name id' name') :
    Outcome.Renamed x y program program'
      (.failed [.runtime name.line (.undefinedVariable name.lexeme)])
      (.failed [.runtime name'.line (.undefinedVariable name'.lexeme)]) := by
  obtain ⟨rfl, assigns, mem, mem'⟩ := paired
  have line : name'.line = name.line := like.lines.symm
  have hy : name.lexeme ≠ y := unused.accesses _ mem
  have same (h : name'.lexeme = name.lexeme) : Outcome.Renamed x y program program'
      (.failed [.runtime name.line (.undefinedVariable name.lexeme)])
      (.failed [.runtime name'.line (.undefinedVariable name'.lexeme)]) := by
    rw [h, line]
    refine .same fun _ failed => hy ?_
    simp only [Outcome.failed.injEq, List.cons.injEq, Diagnostic.runtime.injEq,
      RuntimeFault.undefinedVariable.injEq] at failed
    exact failed.1.2
  cases renamed with
  | false => exact same like.lexeme_eq
  | true =>
      have lexeme : name'.lexeme = Equiv.swap x y name.lexeme := like.lexeme
      by_cases hx : name.lexeme = x
      · rw [hx, Equiv.swap_apply_left] at lexeme
        rw [hx, lexeme]
        exact .other mem mem' hx lexeme line
      · exact same (by rw [lexeme, Equiv.swap_apply_of_ne_of_ne hx hy])

/-- A failure names the access in each program, unless it is none of an access. -/
theorem Outcome.Like.renamed (unused : Stmt.Unused y program) {o o' : Outcome Unit}
    (h : Outcome.Like (.renaming table x y program program') o o') :
    Outcome.Renamed x y program program' o o' := by
  cases h with
  | done => exact .same fun _ failed => by cases failed
  | exhausted => exact .same fun _ failed => by cases failed
  | failed h =>
      cases h with
      | output fault => exact .same fun _ failed => by cases failed
      | @runtime line _ fault lines named =>
          obtain rfl : line = _ := lines
          refine .same fun _ failed => named y ?_
          simp only [Outcome.failed.injEq, List.cons.injEq, Diagnostic.runtime.injEq] at failed
          exact failed.1.2
      | undefined access =>
          cases access with
          | toGlobal _ _ like paired => exact .of_paired unused like paired
          | toLocal _ _ _ like paired => exact .of_paired unused like paired

/-- Steps that end alike, each taken in its session. -/
theorem Session.perform_renamed {step step' : Eval Unit} {m : Machine} {next : NodeId}
    {levels : List Level} {w : World} {Q : World → Unit → Unit → Prop}
    (unused : Stmt.Unused y program)
    (h : Eval.Like (.renaming table x y program program') levels w step step' m m Q) :
    (Session.perform step' ⟨m, next⟩).2.machine.sink =
        (Session.perform step ⟨m, next⟩).2.machine.sink ∧
      Outcome.Renamed x y program program' (Session.perform step ⟨m, next⟩).1
        (Session.perform step' ⟨m, next⟩).1 := by
  obtain ⟨outcomes, w', machines⟩ := Session.perform_like next next h
  exact ⟨machines.sink, outcomes.renamed unused⟩

end

/-! ## Programs

From a source to the ends of the two runs. -/

/-- **A local name is only a name.**  A source is read and resolved in a new session, and one local
of its program is renamed to `y`, which no variable of the program is called: a variable of a block
or of the body of a function, or a parameter, with the accesses that the table binds to it.  The
walk records the same distances for the renamed program.  Within every bound it prints the same, and
ends in the same way or, where the one fails at an access that is renamed, at the same access of the
other name; whatever undefined variable its message names, the run came to an access by that name
on that line that found no value. -/
theorem local_renamed {clock : Nat → Float} {sink : Sink} {source x y : String}
    {program program' : List Stmt} {s : Session} {entries : List Entry}
    (hread : (Session.initial clock sink).read source = (.done program, s))
    (hresolve : resolve program = .ok entries) (unused : Stmt.Unused y program)
    (renames : Stmt.RenamesAll (Distances.add {} entries) x y program program') :
    resolve program' = .ok entries ∧ ∀ bound,
      (s.runProgram bound program').2.machine.sink = (s.runProgram bound program).2.machine.sink ∧
      Outcome.Renamed x y program program' (s.runProgram bound program).1
        (s.runProgram bound program').1 ∧
      ∀ line z, (s.runProgram bound program').1 = .failed [.runtime line (.undefinedVariable z)] →
        Moment.Founders ⟨bound, .statements program', (s.resolve program').2.machine⟩ line z := by
  obtain ⟨-, after, resolved⟩ :=
    (Session.ready_initial clock sink).resolved hread (Session.resolve_of_ok hresolve)
  obtain ⟨-, faultless, rfl, rfl⟩ := Session.read_eq_done hread
  have shaped := Session.shaped_parsed faultless
  generalize hl : Session.ledger _ _ = l at resolved
  have table : Distances.add {} entries = l.distances := by
    rw [← hl]
    rfl
  rw [table] at renames
  have hresolve' : resolve program' = .ok entries :=
    resolve_renames renames unused shaped resolved hresolve
  refine ⟨hresolve', fun bound => ?_⟩
  have differ : Likeness.Renames (.renaming l.distances x y _ program') l x y _ program' :=
    ⟨unused, fun _ => rfl, rfl, rfl, rfl, fun h h' => ⟨rfl, _, h, h'⟩⟩
  have like := renames.like differ resolved shaped (fun _ h => h) (fun _ h => h) (fun _ h => h)
  have alike := interpret_like bound like (Machine.alike_initial clock sink)
  simp only [Session.runProgram, Session.resolve_of_ok hresolve, Session.resolve_of_ok hresolve',
    Session.interpret]
  rw [show (Session.initial clock sink).machine.distances.add entries = l.distances from table]
  obtain ⟨sinks, outcomes⟩ := Session.perform_renamed unused alike
  refine ⟨sinks, outcomes, fun line z failed => ?_⟩
  have misses : Eval.Misses (executeProgram bound program')
      { Machine.initial clock sink with distances := l.distances } line z := by
    rcases Eval.misses_bind (Session.perform_eq_failed failed) with h | ⟨_, n, -, h⟩
    · exact h
    · exact (Eval.not_misses_flush h).elim
  exact executeProgram_founders program' misses

/-- Whether a program starts with a block that starts with the declaration of a variable. -/
def Stmt.startsWithLocal (x : String) : List Stmt → Bool
  | .block (.var name _ :: _) :: _ => name.lexeme == x
  | _ => false

theorem Stmt.renamesAll_of_startsWithLocal (table : Distances) {x : String} (y : String)
    {program : List Stmt} (h : Stmt.startsWithLocal x program = true) :
    ∃ program', Stmt.RenamesAll table x y program program' := by
  unfold startsWithLocal at h
  split at h
  next name _ _ _ =>
    exact ⟨_, .here (.block ⟨name, _, List.mem_cons_self, by simpa using h⟩)⟩
  next => cases h

/-- A local that is assigned in its own initializer, which fails, and has the name of a global. -/
theorem local_renamed_own_initializer :
    ∃ (s : Session) (program program' : List Stmt),
      (Session.initial (fun _ => 0) {}).read "\x7b var x = x = nil; \x7d var x;" =
        (.done program, s) ∧
      resolve program = .ok [(1, 0)] ∧ Stmt.Unused "y" program ∧
      Stmt.RenamesAll (Distances.add {} [(1, 0)]) "x" "y" program program' ∧
      resolve program' = .ok [(1, 0)] ∧
      Outcome.Renamed "x" "y" program program' (s.runProgram 9 program).1
        (s.runProgram 9 program').1 := by
  have hread : (Session.initial (fun _ => 0) {}).read "\x7b var x = x = nil; \x7d var x;" = _ :=
    Session.read_of_faultless _ (by decide +kernel) (by decide +kernel)
  have hresolve : resolve ((Session.initial (fun _ => 0) {}).parsed
      "\x7b var x = x = nil; \x7d var x;").statements = .ok [(1, 0)] := by
    decide +kernel
  have unused : Stmt.Unused "y" ((Session.initial (fun _ => 0) {}).parsed
      "\x7b var x = x = nil; \x7d var x;").statements :=
    ⟨by decide +kernel, by decide +kernel⟩
  obtain ⟨program', renames⟩ := Stmt.renamesAll_of_startsWithLocal (Distances.add {} [(1, 0)]) "y"
    (show Stmt.startsWithLocal "x" ((Session.initial (fun _ => 0) {}).parsed
      "\x7b var x = x = nil; \x7d var x;").statements = true by decide +kernel)
  obtain ⟨hresolve', runs⟩ := local_renamed hread hresolve unused renames
  exact ⟨_, _, program', hread, hresolve, unused, renames, hresolve', (runs 9).2.1⟩

end Lox
