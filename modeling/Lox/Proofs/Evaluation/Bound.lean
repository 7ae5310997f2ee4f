import Lox.Proofs.Evaluation.Steps

/-!
# A larger bound

A step that ends within its bound ends in the same way within every larger one.  So it does not
matter which bound is taken, as long as it is large enough.

A bound is not part of what a program means.  It is there so that the evaluator is a function, and
the theorems about programs are about every bound, or about one that is large enough.  This module
is what makes the second kind as good as the first.

* `Eval.Extends` — a step does what another one does, whenever that one does not give up.
* `Callable.apply_extends`, `interpret_extends` — calls and programs with a larger bound.
-/

namespace Lox

variable {α β : Type}

/-- A step ends as another one does, unless that one gives up. -/
def Eval.Extends (step step' : Eval α) : Prop :=
  ∀ m, (∃ n, step m = .error .exhausted n) ∨ step' m = step m

namespace Eval.Extends

theorem refl {step : Eval α} : Extends step step :=
  fun _ => .inr rfl

/-- A step that gives up is extended by any. -/
theorem exhausted {step : Eval α} : Extends exhausted step :=
  fun m => .inl ⟨m, rfl⟩

theorem bind {step step' : Eval α} {f f' : α → Eval β} (h : Extends step step')
    (hf : ∀ a, Extends (f a) (f' a)) : Extends (step >>= f) (step' >>= f') := by
  intro m
  rcases h m with ⟨n, hn⟩ | same
  · exact .inl ⟨n, bind_error hn⟩
  cases hs : step m with
  | error stop n => exact .inr ((bind_error (same.trans hs)).trans (bind_error hs).symm)
  | ok a n =>
      rw [bind_ok hs, bind_ok (same.trans hs)]
      exact hf a n

theorem inScope {env : Env} {step step' : Eval α} (h : Extends step step') :
    Extends (inScope env step) (inScope env step') := by
  intro m
  rw [inScope_eq, inScope_eq]
  rcases h (m.opened env) with ⟨n, hn⟩ | same
  · exact .inl ⟨n.within m.env, by rw [hn]⟩
  · exact .inr (by rw [same])

theorem entering {line : Nat} {step step' : Eval α} (h : Extends step step') :
    Extends (entering line step) (entering line step') := by
  intro m
  rcases Nat.lt_or_ge m.depth maxDepth with room | full
  · rw [entering_eq room, entering_eq room]
    rcases h (m.withDepth (m.depth + 1)) with ⟨n, hn⟩ | same
    · exact .inl ⟨n.withDepth (n.depth - 1), by rw [hn]⟩
    · exact .inr (by rw [same])
  · exact .inr (by rw [entering_full full, entering_full full])

end Eval.Extends

/-! ## Expressions

By recursion on the tree, given calls that are extended. -/

/-- Calls end as others do, unless those give up. -/
def Apply.Extends (apply apply' : Apply) : Prop :=
  ∀ c arguments line, Eval.Extends (apply c arguments line) (apply' c arguments line)

section
variable {apply apply' : Apply}

theorem callValue_extends (h : apply.Extends apply') (callee : Value) (arguments : List Value)
    (line : Nat) :
    Eval.Extends (callValue apply callee arguments line) (callValue apply' callee arguments line) := by
  unfold callValue
  cases callee with
  | callable i c =>
      dsimp only
      split
      · exact (h c arguments line).entering
      · exact .refl
  | _ => exact .refl

mutual

theorem Expr.eval_extends (h : apply.Extends apply') :
    ∀ e : Expr, Eval.Extends (e.eval apply) (e.eval apply')
  | .literal _ | .read _ _ => .refl
  | .group inner => Expr.eval_extends h inner
  | .unary _ operand => (Expr.eval_extends h operand).bind fun _ => .refl
  | .binary left _ right =>
      (Expr.eval_extends h left).bind fun _ => (Expr.eval_extends h right).bind fun _ => .refl
  | .logical left operator right => by
      refine (Expr.eval_extends h left).bind fun x => ?_
      split
      · exact .refl
      · exact Expr.eval_extends h right
  | .assign _ _ value => (Expr.eval_extends h value).bind fun _ => .refl
  | .call callee _ arguments =>
      (Expr.eval_extends h callee).bind fun _ =>
        (Expr.evalAll_extends h arguments).bind fun _ => callValue_extends h _ _ _
  | .get object _ => (Expr.eval_extends h object).bind fun _ => .refl
  | .set object name value => by
      refine (Expr.eval_extends h object).bind fun x => ?_
      split
      · exact (Expr.eval_extends h value).bind fun _ => .refl
      · exact .refl

theorem Expr.evalAll_extends (h : apply.Extends apply') :
    ∀ es : List Expr, Eval.Extends (Expr.evalAll apply es) (Expr.evalAll apply' es)
  | [] => .refl
  | e :: es =>
      (Expr.eval_extends h e).bind fun _ => (Expr.evalAll_extends h es).bind fun _ => .refl

end

theorem Expr.evalOption_extends (h : apply.Extends apply') (e : Option Expr) :
    Eval.Extends (Expr.evalOption apply e) (Expr.evalOption apply' e) := by
  cases e with
  | none => exact .refl
  | some e => exact Expr.eval_extends h e

/-! ## Statements

A loop may make more rounds, which are only made if it does not end before. -/

/-- A loop with more rounds, and with parts that are extended. -/
theorem repeatWhile_extends {condition condition' : Eval Value} {body body' : Eval Flow}
    (hcondition : condition.Extends condition') (hbody : body.Extends body') {rounds rounds' : Nat}
    (le : rounds ≤ rounds') :
    Eval.Extends (repeatWhile condition body rounds) (repeatWhile condition' body' rounds') := by
  induction rounds generalizing rounds' with
  | zero => exact .exhausted
  | succ rounds ih =>
      obtain ⟨rounds', rfl⟩ := Nat.exists_eq_add_one_of_ne_zero (Nat.ne_zero_of_lt le)
      refine hcondition.bind fun x => ?_
      split
      · refine hbody.bind fun flow => ?_
        cases flow with
        | normal => exact ih (Nat.le_of_succ_le_succ le)
        | returned => exact .refl
      · exact .refl

mutual

theorem Stmt.exec_extends (h : apply.Extends apply') {rounds rounds' : Nat} (le : rounds ≤ rounds') :
    ∀ s : Stmt, Eval.Extends (s.exec apply rounds) (s.exec apply' rounds')
  | .expression e | .print e => (Expr.eval_extends h e).bind fun _ => .refl
  | .var _ initializer => (Expr.evalOption_extends h initializer).bind fun _ => .refl
  | .block body => Eval.Extends.refl.bind fun _ => (Stmt.execAll_extends h le body).inScope
  | .branch condition yes none => by
      refine (Expr.eval_extends h condition).bind fun x => ?_
      split
      · exact Stmt.exec_extends h le yes
      · exact .refl
  | .branch condition yes (some no) => by
      refine (Expr.eval_extends h condition).bind fun x => ?_
      split
      · exact Stmt.exec_extends h le yes
      · exact Stmt.exec_extends h le no
  | .loop condition body =>
      repeatWhile_extends (Expr.eval_extends h condition) (Stmt.exec_extends h le body) le
  | .function _ _ _ | .cls _ => .refl
  | .ret _ value => (Expr.evalOption_extends h value).bind fun _ => .refl

theorem Stmt.execAll_extends (h : apply.Extends apply') {rounds rounds' : Nat}
    (le : rounds ≤ rounds') :
    ∀ ss : List Stmt, Eval.Extends (Stmt.execAll apply rounds ss) (Stmt.execAll apply' rounds' ss)
  | [] => .refl
  | s :: ss => by
      refine (Stmt.exec_extends h le s).bind fun flow => ?_
      cases flow with
      | normal => exact Stmt.execAll_extends h le ss
      | returned => exact .refl

end

end

/-! ## Calls and programs

By induction on the smaller bound. -/

/-- **A call with a larger bound.** -/
theorem Callable.apply_extends {bound bound' : Nat} (le : bound ≤ bound') :
    Apply.Extends (Callable.apply bound) (Callable.apply bound') := by
  induction bound generalizing bound' with
  | zero => exact fun c arguments line => .exhausted
  | succ bound ih =>
      obtain ⟨bound', rfl⟩ := Nat.exists_eq_add_one_of_ne_zero (Nat.ne_zero_of_lt le)
      replace le := Nat.le_of_succ_le_succ le
      intro c arguments line
      cases c with
      | host | cls => exact .refl
      | function name parameters body closure =>
          refine .inScope (Eval.Extends.refl.bind fun _ => ?_)
          exact (Stmt.execAll_extends (ih le) le body).bind fun _ => .refl

theorem executeProgram_extends {bound bound' : Nat} (le : bound ≤ bound') (program : List Stmt) :
    Eval.Extends (executeProgram bound program) (executeProgram bound' program) := by
  induction program with
  | nil => exact .refl
  | cons s ss ih =>
      refine (Stmt.exec_extends (Callable.apply_extends le) le s).bind fun flow => ?_
      cases flow with
      | normal => exact ih
      | returned => exact .refl

/-- **A program that ends within a bound ends in the same way within a larger one.** -/
theorem interpret_extends {bound bound' : Nat} (le : bound ≤ bound') (program : List Stmt) :
    Eval.Extends (interpret bound program) (interpret bound' program) :=
  (executeProgram_extends le program).bind fun _ => .refl

end Lox
