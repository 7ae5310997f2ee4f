import Lox.Proofs.Evaluation.Bound
import Lox.Proofs.Evaluation.Termination
import Lox.Proofs.Session.Reachable

/-!
# Sessions without loops

A program without loops ends if no function that it can get at has a loop, and then leaves none that
has.  So a session of such programs goes on for as long as it likes, and each of them ends.

The bound is used up by calls and by rounds of loops.  Without loops only calls count, and of these
there can be no more in progress than the limit on the depth; each program then ends within a bound
that does not depend on it.

* `Session.interpret_ends` — what a program does on such a machine is the same within every bound
  that is large enough for all calls there is room for.
* `Session.loopFree_ends` — programs without loops end, resolved or not.
-/

namespace Lox

open Eval

namespace Machine

/-- On a machine on which nothing has run no function has a loop, since none has a body. -/
theorem loopFree_initial (clock : Nat → Float) (sink : Sink) : (initial clock sink).LoopFree := by
  have host : (initial clock sink).Confined ⟨fun _ => True, fun _ => True⟩ :=
    { globals := fun _ _ => trivial
      current := fun _ _ => trivial
      bound := fun _ _ _ _ hv => lookup_initial hv ▸ trivial
      field := fun i _ name v hv => by rw [fields_initial] at hv; cases hv
      newFrame := fun _ _ => trivial
      newObject := fun _ _ => trivial }
  exact host.loopFree

/-- The distances are not looked at. -/
theorem LoopFree.withDistances {m : Machine} (h : m.LoopFree) (distances : Distances) :
    ({ m with distances } : Machine).LoopFree := by
  have hm := h.confined
  have same : ({ m with distances } : Machine).Confined m.region :=
    ⟨hm.globals, hm.current, hm.bound, hm.field, hm.newFrame, hm.newObject⟩
  exact same.loopFree

end Machine

namespace Session

variable {program : List Stmt} {s : Session}

/-- A program without loops ends within as many calls as there is room for, whichever are in
progress, and so it does in the same way within every larger bound. -/
theorem interpret_ends (free : Stmt.loopFreeAll program = true) (hs : s.machine.LoopFree) :
    ∃ o s', o ≠ .exhausted ∧ s'.machine.LoopFree ∧
      ∀ bound ≥ maxDepth, s.interpret bound program = (o, s') := by
  have ends := Lox.interpret_ends (r := s.machine.region) (d := s.machine.depth)
    (Nat.le_add_left maxDepth _) free s.machine hs.confined rfl
  have same {bound : Nat} (le : maxDepth ≤ bound) :
      Lox.interpret bound program s.machine = Lox.interpret maxDepth program s.machine := by
    refine (interpret_extends le program s.machine).resolve_left fun ⟨n, exhausted⟩ => ?_
    rw [exhausted] at ends
    exact ends.2.2 rfl
  cases last : Lox.interpret maxDepth program s.machine with
  | ok a n =>
      rw [last] at ends
      refine ⟨.done a, ⟨n, s.nextNode⟩, by simp, ends.1.loopFree, fun bound le => ?_⟩
      simp only [interpret, perform, same le, last]
  | error stop n =>
      rw [last] at ends
      cases stop with
      | failed d =>
          refine ⟨.failed [d], ⟨n, s.nextNode⟩, by simp, ends.1.loopFree, fun bound le => ?_⟩
          simp only [interpret, perform, same le, last]
      | exhausted => exact (ends.2.2 rfl).elim

/-- **A program without loops comes to an end**, with a result or with an error, if no function that
it can get at has a loop in its body; on a new session none has.  What it ends with is the same
within every bound that is large enough for all calls there is room for, whether the program is
resolved first or not.  No function that can be got at then has a loop either. -/
theorem loopFree_ends (free : Stmt.loopFreeAll program = true) :
    (∀ clock sink, (initial clock sink).machine.LoopFree) ∧
    ∀ s : Session, s.machine.LoopFree →
      (∃ o s', o ≠ .exhausted ∧ s'.machine.LoopFree ∧
        ∀ bound ≥ maxDepth, s.interpret bound program = (o, s')) ∧
      ∃ o s', o ≠ .exhausted ∧ s'.machine.LoopFree ∧
        ∀ bound ≥ maxDepth, s.runProgram bound program = (o, s') := by
  refine ⟨Machine.loopFree_initial, fun s hs => ⟨interpret_ends free hs, ?_⟩⟩
  cases hr : Lox.resolve program with
  | ok entries =>
      obtain ⟨o, s', ended, left, same⟩ :=
        interpret_ends free (s := { s with
          machine := { s.machine with distances := s.machine.distances.add entries } })
          (hs.withDistances _)
      refine ⟨o, s', ended, left, fun bound enough => ?_⟩
      simp only [runProgram, resolve_of_ok hr, same bound enough]
  | error fault =>
      refine ⟨.failed [.binding fault.1 fault.2], s, by simp, hs, fun bound _ => ?_⟩
      simp only [runProgram, resolve, hr]

/-- A function calls what it is given with itself, twice, and is then given itself: on a machine
where it was declared by an earlier program that ends. -/
theorem loopFree_ends_self_application :
    let name (lexeme : String) : Token := ⟨.identifier, lexeme, 1, ()⟩
    let paren : Token := ⟨.symbol .rightParen, ")", 1, ()⟩
    let declares : List Stmt := [.function (name "f") [name "g"]
      [.expression (.call (.read 0 (name "g")) paren [.read 1 (name "g")]),
        .expression (.call (.read 2 (name "g")) paren [.read 3 (name "g")])]]
    let calls : List Stmt := [.expression (.call (.read 4 (name "f")) paren [.read 5 (name "f")])]
    Stmt.loopFreeAll declares = true ∧ Stmt.loopFreeAll calls = true ∧
      ∃ o o' s s', o ≠ .exhausted ∧ o' ≠ .exhausted ∧ s.machine.LoopFree ∧
        (∀ bound ≥ maxDepth, (initial (fun _ => 0) {}).runProgram bound declares = (o, s)) ∧
        ∀ bound ≥ maxDepth, s.runProgram bound calls = (o', s') := by
  intro name paren declares calls
  have freeDeclares : Stmt.loopFreeAll declares = true := rfl
  have freeCalls : Stmt.loopFreeAll calls = true := rfl
  obtain ⟨new, declared⟩ := loopFree_ends freeDeclares
  obtain ⟨-, o, s, ended, left, same⟩ := declared _ (new (fun _ => 0) {})
  obtain ⟨-, o', s', ended', -, same'⟩ := (loopFree_ends freeCalls).2 s left
  exact ⟨freeDeclares, freeCalls, o, o', s, s', ended, ended', left, same, same'⟩

end Session

end Lox
