import Lox.Proofs.Evaluation.Operators
import Lox.Proofs.Parse.Forms
import Lox.Proofs.Session.Stages

/-!
# Sessions of formed trees

All trees that a session runs were parsed, so that they have the form, and so has the body of every
function that is left on its machine.  An operator that its node does not stand for is never met.

The form is an invariant of the machine: a function that is made has the body that was parsed for
it, and nothing changes a body afterwards.  So a call of a function from an older source is as safe
as one from the source itself.

* `Session.Reached.formed` — the functions of a session have bodies in the form.
* `trees_formed` — **whatever is parsed has the form that later stages count on**.
-/

namespace Lox

open Parse (IsName)

/-- On a machine on which nothing has run there is no function but the clock. -/
theorem Machine.formed_initial (clock : Nat → Float) (sink : Sink) :
    (initial clock sink).Formed := by
  refine ⟨fun f name v hv => lookup_initial hv ▸ trivial, fun i name v hv => ?_⟩
  rw [fields_initial] at hv
  cases hv

namespace Session

variable {s s' s'' : Session} {source : String} {program programs : List Stmt}
  {clock : Nat → Float} {sink : Sink}

/-- The program of a source has the form. -/
theorem formed_of_read (hread : s.read source = (.done program, s')) :
    Stmt.FormedAll (fun _ => True) program := by
  obtain ⟨-, -, rfl, -⟩ := read_eq_done hread
  exact Stmt.FormedAll.anyNames _ (parse_builds _ _).2

/-- A step that leaves every function a body in the form, as the last stage of a source. -/
theorem formed_perform {α : Type} {step : Eval α} {post : α → Prop} (h : step.Lawful post)
    (hs : s.machine.Formed) : (s.perform step).2.machine.Formed ∧
      ∀ line fault, .runtime line fault ∈ (s.perform step).1.errors →
        fault.isOperator = false := by
  obtain ⟨m, next⟩ := s
  simp only [perform]
  cases hm : step m with
  | ok a n => exact ⟨(h.of_ok hs hm).1, by simp [Outcome.errors]⟩
  | error stop n =>
      obtain ⟨hn, other⟩ := h.of_error hs hm
      cases stop with
      | exhausted => exact ⟨hn, by simp [Outcome.errors]⟩
      | failed d =>
          refine ⟨hn, fun line fault failed => other line fault ?_⟩
          rw [Outcome.errors, List.mem_singleton] at failed
          rw [Eval.failure, failed]

/-- A source leaves every function a body in the form, and does not fail with an operator. -/
theorem formed_run (hs : s.machine.Formed) (bound : Nat) (source : String) :
    (s.run bound source).2.machine.Formed ∧
      ∀ line fault, .runtime line fault ∈ (s.run bound source).1.errors →
        fault.isOperator = false := by
  rcases s.accepts_or_refuses source with ⟨program, s', accepts⟩ | ⟨errors, refuses⟩
  · rw [run_of_accepts accepts]
    obtain ⟨s'', hread, hresolve⟩ := accepts
    obtain ⟨-, -, -, rfl⟩ := read_eq_done hread
    obtain ⟨entries, -, rfl⟩ := resolve_eq_done hresolve
    exact formed_perform (interpret_lawful bound (formed_of_read hread)) ⟨hs.frames, hs.objects⟩
  · obtain ⟨next, same⟩ := run_of_refuses refuses
    rw [same]
    refine ⟨hs, fun line fault failed => ?_⟩
    -- the stages before the last one report no error of a run
    obtain ⟨-, scan | parse | ⟨d, rfl, resolve⟩⟩ := refuses.staged
    · cases scan _ failed
    · cases parse _ failed
    · rw [← List.mem_singleton.1 failed] at resolve
      cases resolve

/-- Every function of a session has a body in the form. -/
theorem Reached.formed (h : Reached clock sink s programs) : s.machine.Formed := by
  induction h with
  | initial => exact Machine.formed_initial clock sink
  | run _ bound source ih => exact (formed_run ih bound source).1

end Session

/-- **Whatever is parsed has the form that later stages count on.**  Of every list of tokens, with
or without faults, the statements that are read have their declarations in their places, as members
of the program, of a block or of the body of a function; all operators are of the kinds that their
nodes stand for, all names are identifiers of the list, and no function has too many parameters and
no call too many arguments.  So in no session does a source ever fail with an invalid operator. -/
theorem trees_formed :
    (∀ (tokens : List Token) (first : NodeId),
      Stmt.ShapedAll (parse tokens first).statements ∧
        Stmt.FormedAll (fun t => t ∈ tokens ∧ t.kind = .identifier)
          (parse tokens first).statements) ∧
    ∀ (clock : Nat → Float) (sink : Sink) (s : Session) (programs : List Stmt),
      Session.Reached clock sink s programs → ∀ (bound : Nat) (source : String) (line : Nat)
        (fault : RuntimeFault), .runtime line fault ∈ (s.run bound source).1.errors →
          fault.isOperator = false :=
  ⟨parse_builds, fun _ _ _ _ reached bound source line fault =>
    (Session.formed_run reached.formed bound source).2 line fault⟩

/-- A function of an earlier source fails, for its operand and not for its operator. -/
theorem trees_formed_operand :
    ∃ (s : Session) (programs : List Stmt), Session.Reached (fun _ => 0) {} s programs ∧
      .runtime 1 .operandNotNumber ∈ (s.run 9 "f(nil);").1.errors ∧
      RuntimeFault.operandNotNumber.isOperator = false := by
  have first : Session.Reached (fun _ => 0) {} _ _ :=
    .run .initial 9 "fun f(a) \x7b return -a; \x7d"
  have failed : .runtime 1 .operandNotNumber ∈ ((Session.run 9 "fun f(a) \x7b return -a; \x7d"
      (Session.initial (fun _ => 0) {})).2.run 9 "f(nil);").1.errors := by
    decide +kernel
  exact ⟨_, _, first, failed, trees_formed.2 _ _ _ _ first 9 "f(nil);" 1 _ failed⟩

end Lox
