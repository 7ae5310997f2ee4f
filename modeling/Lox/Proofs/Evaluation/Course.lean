import Mathlib.Logic.Relation
import Lox.Proofs.Evaluation.Steps

/-!
# The course of a run

The evaluator yields what a run ends in.  Here is what a run comes to on its way: which part of the
program is evaluated next, with which machine.  The machines in between are those of the evaluator
itself.

`Next` has one constructor for each evaluation that another one starts, or goes on to once the
evaluations before it have come to a value.  The machines in it are not a semantics of their own:
they are what the evaluator left, by a hypothesis about the evaluator itself.  So nothing has to be
proved equal, but one has to see that no evaluation was forgotten.  For what matters here, accesses,
this is the theorem at the end.

* `Task`, `Moment` — something that is evaluated, and when.
* `Moment.Next`, `Moment.Reaches` — what an evaluation starts with or goes on to, and all it comes
  to.
* `executeProgram_founders` — nothing is left out: wherever a program fails for a
  variable without a value, it came to that access.
-/

namespace Lox

/-- Something that is evaluated. -/
inductive Task where
  | expression (e : Expr)
  /-- Expressions that follow each other. -/
  | expressions (es : List Expr)
  /-- The write of an assignment, once there is a value. -/
  | write (id : NodeId) (name : Token) (value : Value)
  | statement (s : Stmt)
  /-- Statements that follow each other. -/
  | statements (ss : List Stmt)
  /-- What is left of a loop. -/
  | loop (condition : Expr) (body : Stmt) (rounds : Nat)
  | call (callee : Value) (arguments : List Value) (line : Nat)

/-- Something is about to be evaluated within a bound. -/
structure Moment where
  bound : Nat
  task : Task
  machine : Machine

namespace Moment

/-- What an evaluation starts with or, once that has been evaluated, goes on to. -/
inductive Next : Moment → Moment → Prop
  | group {b e m} : Next ⟨b, .expression (.group e), m⟩ ⟨b, .expression e, m⟩
  | operand {b op e m} : Next ⟨b, .expression (.unary op e), m⟩ ⟨b, .expression e, m⟩
  | left {b op x y m} : Next ⟨b, .expression (.binary x op y), m⟩ ⟨b, .expression x, m⟩
  | right {b op x y m v n} (hx : x.eval (Callable.apply b) m = .ok v n) :
      Next ⟨b, .expression (.binary x op y), m⟩ ⟨b, .expression y, n⟩
  | logicalLeft {b op x y m} : Next ⟨b, .expression (.logical x op y), m⟩ ⟨b, .expression x, m⟩
  | logicalRight {b op x y m v n} (hx : x.eval (Callable.apply b) m = .ok v n)
      (hv : isDecided op v = false) :
      Next ⟨b, .expression (.logical x op y), m⟩ ⟨b, .expression y, n⟩
  | assigned {b id name e m} : Next ⟨b, .expression (.assign id name e), m⟩ ⟨b, .expression e, m⟩
  | write {b id name e m v n} (he : e.eval (Callable.apply b) m = .ok v n) :
      Next ⟨b, .expression (.assign id name e), m⟩ ⟨b, .write id name v, n⟩
  | callee {b f paren as m} : Next ⟨b, .expression (.call f paren as), m⟩ ⟨b, .expression f, m⟩
  | arguments {b f paren as m v n} (hf : f.eval (Callable.apply b) m = .ok v n) :
      Next ⟨b, .expression (.call f paren as), m⟩ ⟨b, .expressions as, n⟩
  | call {b f paren as m v n vs k} (hf : f.eval (Callable.apply b) m = .ok v n)
      (has : Expr.evalAll (Callable.apply b) as n = .ok vs k) :
      Next ⟨b, .expression (.call f paren as), m⟩ ⟨b, .call v vs paren.line, k⟩
  | object {b e name m} : Next ⟨b, .expression (.get e name), m⟩ ⟨b, .expression e, m⟩
  | setObject {b e name x m} : Next ⟨b, .expression (.set e name x), m⟩ ⟨b, .expression e, m⟩
  | setValue {b e name x m i c n} (he : e.eval (Callable.apply b) m = .ok (.object i c) n) :
      Next ⟨b, .expression (.set e name x), m⟩ ⟨b, .expression x, n⟩
  | firstExpression {b e es m} : Next ⟨b, .expressions (e :: es), m⟩ ⟨b, .expression e, m⟩
  | otherExpressions {b e es m v n} (he : e.eval (Callable.apply b) m = .ok v n) :
      Next ⟨b, .expressions (e :: es), m⟩ ⟨b, .expressions es, n⟩
  | expression {b e m} : Next ⟨b, .statement (.expression e), m⟩ ⟨b, .expression e, m⟩
  | printed {b e m} : Next ⟨b, .statement (.print e), m⟩ ⟨b, .expression e, m⟩
  | initializer {b name e m} :
      Next ⟨b, .statement (.var name (some e)), m⟩ ⟨b, .expression e, m⟩
  | block {b body m} : Next ⟨b, .statement (.block body), m⟩ ⟨b, .statements body, m.opened m.env⟩
  | condition {b e yes no m} : Next ⟨b, .statement (.branch e yes no), m⟩ ⟨b, .expression e, m⟩
  | yes {b e yes no m v n} (he : e.eval (Callable.apply b) m = .ok v n)
      (hv : v.isTruthy = true) :
      Next ⟨b, .statement (.branch e yes no), m⟩ ⟨b, .statement yes, n⟩
  | no {b e yes no m v n} (he : e.eval (Callable.apply b) m = .ok v n)
      (hv : v.isTruthy = false) :
      Next ⟨b, .statement (.branch e yes (some no)), m⟩ ⟨b, .statement no, n⟩
  | loop {b e body m} : Next ⟨b, .statement (.loop e body), m⟩ ⟨b, .loop e body b, m⟩
  | loopCondition {b e body rounds m} :
      Next ⟨b, .loop e body (rounds + 1), m⟩ ⟨b, .expression e, m⟩
  | loopBody {b e body rounds m v n} (he : e.eval (Callable.apply b) m = .ok v n)
      (hv : v.isTruthy = true) :
      Next ⟨b, .loop e body (rounds + 1), m⟩ ⟨b, .statement body, n⟩
  | loopAgain {b e body rounds m v n k} (he : e.eval (Callable.apply b) m = .ok v n)
      (hv : v.isTruthy = true) (hbody : body.exec (Callable.apply b) b n = .ok .normal k) :
      Next ⟨b, .loop e body (rounds + 1), m⟩ ⟨b, .loop e body rounds, k⟩
  | returned {b keyword e m} : Next ⟨b, .statement (.ret keyword (some e)), m⟩ ⟨b, .expression e, m⟩
  | firstStatement {b s ss m} : Next ⟨b, .statements (s :: ss), m⟩ ⟨b, .statement s, m⟩
  | otherStatements {b s ss m n} (hs : s.exec (Callable.apply b) b m = .ok .normal n) :
      Next ⟨b, .statements (s :: ss), m⟩ ⟨b, .statements ss, n⟩
  | body {b i name parameters body closure arguments line m n}
      (arity : arguments.length = parameters.length) (room : m.depth < Eval.maxDepth)
      (hn : bindParameters parameters arguments
        ((m.withDepth (m.depth + 1)).opened closure) = .ok () n) :
      Next ⟨b + 1, .call (.callable i (.function name parameters body closure)) arguments line, m⟩
        ⟨b, .statements body, n⟩

/-- Everything that an evaluation comes to. -/
def Reaches : Moment → Moment → Prop :=
  Relation.ReflTransGen Next

/-- One step and what is reached from there. -/
theorem Next.reaches {p q r : Moment} (h : p.Next q) (h' : q.Reaches r) : p.Reaches r :=
  Relation.ReflTransGen.head h h'

/-- An access without a value under its name is all that is left to do. -/
inductive Undefined : Moment → NodeId → Token → Prop
  | read {b id name m} (h : m.find? id name.lexeme = none) :
      Undefined ⟨b, .expression (.read id name), m⟩ id name
  | write {b id name v m} (h : m.binder? id name.lexeme = none) :
      Undefined ⟨b, .write id name v, m⟩ id name

/-- An evaluation comes to an access that fails. -/
def Founders (p : Moment) (line : Nat) (x : String) : Prop :=
  ∃ q id name, p.Reaches q ∧ q.Undefined id name ∧ name.line = line ∧ name.lexeme = x

/-- What founders later founders from here. -/
theorem Next.founders {p q : Moment} (h : p.Next q) {line : Nat} {x : String}
    (hq : q.Founders line x) : p.Founders line x := by
  obtain ⟨r, id, name, hr, hname⟩ := hq
  exact ⟨r, id, name, h.reaches hr, hname⟩

end Moment

/-! ## Nothing is left out

An access that fails is the only reason for a failure that names a variable.  So whatever fails for
that reason has come to such an access, and this is traced through the evaluator from the outside
in. -/

namespace Eval

variable {α β : Type} {m : Machine} {line : Nat} {x : String}

/-- A step fails because a variable has no value. -/
def Misses (step : Eval α) (m : Machine) (line : Nat) (x : String) : Prop :=
  ∃ n, step m = .error (failure line (.undefinedVariable x)) n

/-- A step that succeeds does not fail. -/
theorem not_misses_ok {step : Eval α} {a : α} {n : Machine} (h : step m = .ok a n) :
    ¬Misses step m line x := by
  rintro ⟨k, hk⟩
  rw [h] at hk
  cases hk

theorem not_misses_pure {a : α} : ¬Misses (pure a) m line x :=
  not_misses_ok rfl

/-- One that fails for another reason does not either. -/
theorem not_misses_error {step : Eval α} {stop : Stop} {n : Machine} (h : step m = .error stop n)
    (hne : stop ≠ failure line (.undefinedVariable x)) : ¬Misses step m line x := by
  rintro ⟨k, hk⟩
  rw [h] at hk
  cases hk
  exact hne rfl

theorem not_misses_fail {line' : Nat} {fault : RuntimeFault} (h : fault ≠ .undefinedVariable x) :
    ¬Misses (fail line' fault : Eval α) m line x := by
  refine not_misses_error (fail_eq line' fault) fun heq => h ?_
  injection heq with heq
  injection heq

/-- A sequence misses a variable in its first part, or in its second after it. -/
theorem misses_bind {step : Eval α} {f : α → Eval β} (h : Misses (step >>= f) m line x) :
    Misses step m line x ∨ ∃ a n, step m = .ok a n ∧ Misses (f a) n line x := by
  obtain ⟨k, h⟩ := h
  cases hs : step m with
  | ok a n =>
      rw [bind_ok hs] at h
      exact .inr ⟨a, n, rfl, k, h⟩
  | error stop n =>
      rw [bind_error hs] at h
      cases h
      exact .inl ⟨k, hs⟩

/-- A scope does if the step inside does. -/
theorem misses_inScope {env : Env} {step : Eval α} (h : Misses (inScope env step) m line x) :
    Misses step (m.opened env) line x := by
  obtain ⟨k, h⟩ := h
  rw [inScope_eq] at h
  cases hs : step (m.opened env) with
  | ok a n =>
      rw [hs] at h
      cases h
  | error stop n =>
      rw [hs] at h
      cases h
      exact ⟨n, hs⟩

/-- A call does if there is room for it and the step inside does. -/
theorem misses_entering {callLine : Nat} {step : Eval α}
    (h : Misses (entering callLine step) m line x) :
    m.depth < maxDepth ∧ Misses step (m.withDepth (m.depth + 1)) line x := by
  obtain ⟨k, h⟩ := h
  rcases Nat.lt_or_ge m.depth maxDepth with room | full
  · rw [entering_eq room] at h
    refine ⟨room, ?_⟩
    cases hs : step (m.withDepth (m.depth + 1)) with
    | ok a n =>
        rw [hs] at h
        cases h
    | error stop n =>
        rw [hs] at h
        cases h
        exact ⟨n, hs⟩
  · rw [entering_full full] at h
    cases h

theorem not_misses_of_computes {step : Eval Value} (h : step.Computes) : ¬Misses step m line x := by
  rcases h with ⟨constant, rfl⟩ | ⟨line', fault, other, rfl⟩
  · exact not_misses_pure
  · exact not_misses_fail (other.bound x)

/-- A field that is missing is another fault. -/
theorem not_misses_readField {i : Nat} {name : Token} : ¬Misses (readField i name) m line x := by
  cases hf : (m.objects[i]?.getD []).lookup name.lexeme with
  | none =>
      refine not_misses_error (readField_none hf) fun h => ?_
      injection h with h
      injection h with _ h
      cases h
  | some v => exact not_misses_ok (readField_some hf)

theorem not_misses_write {text : String} : ¬Misses (write text) m line x := by
  cases ha : m.sink.accepts text with
  | true => exact not_misses_ok (write_accepted ha)
  | false => exact not_misses_error (write_refused ha) nofun

theorem not_misses_flush : ¬Misses flush m line x := by
  cases hf : m.sink.flushFails with
  | false => exact not_misses_ok (flush_done hf)
  | true => exact not_misses_error (flush_failed hf) nofun

theorem not_misses_printLine {text : String} : ¬Misses (printLine text) m line x := by
  intro h
  rcases misses_bind h with h | ⟨_, n, -, h⟩
  · exact not_misses_write h
  · exact not_misses_write h

/-- A host function sees no variable. -/
theorem not_misses_host {f : HostFunction} {arguments : List Value} {line' : Nat} :
    ¬Misses (f.apply arguments line') m line x := by
  cases f with
  | clock => exact not_misses_ok rfl
  | lastArgument => exact not_misses_pure
  | failing => exact not_misses_fail nofun

theorem not_misses_bindParameters {parameters : List Token} {arguments : List Value} :
    ¬Misses (bindParameters parameters arguments) m line x := by
  unfold bindParameters
  induction parameters.zip arguments generalizing m with
  | nil => exact not_misses_pure
  | cons p ps ih =>
      intro h
      rcases misses_bind h with h | ⟨_, n, -, h⟩
      · exact not_misses_ok (define_eq _ _) h
      · exact ih h

end Eval

open Eval Moment

/-- All calls within a bound that miss a variable come to its access. -/
def CallsFounder (bound : Nat) : Prop :=
  ∀ {callee : Value} {arguments : List Value} {line line' : Nat} {m : Machine} {x : String},
    Misses (callValue (Callable.apply bound) callee arguments line') m line x →
      Founders ⟨bound, .call callee arguments line', m⟩ line x

section
variable {bound : Nat} {line : Nat} {x : String}

mutual

theorem Expr.founders (hcalls : CallsFounder bound) : ∀ (e : Expr) {m : Machine},
    Misses (e.eval (Callable.apply bound)) m line x → Founders ⟨bound, .expression e, m⟩ line x
  | .literal _, m, h => (not_misses_pure h).elim
  | .group inner, m, h => Next.group.founders (Expr.founders hcalls inner h)
  | .unary operator operand, m, h => by
      rcases misses_bind h with h | ⟨v, n, -, h⟩
      · exact Next.operand.founders (Expr.founders hcalls operand h)
      · exact (not_misses_of_computes (unaryResult_computes _ _) h).elim
  | .binary left operator right, m, h => by
      rcases misses_bind h with h | ⟨v, n, hv, h⟩
      · exact Next.left.founders (Expr.founders hcalls left h)
      rcases misses_bind h with h | ⟨w, k, -, h⟩
      · exact (Next.right hv).founders (Expr.founders hcalls right h)
      · exact (not_misses_of_computes (binaryResult_computes _ _ _) h).elim
  | .logical left operator right, m, h => by
      rcases misses_bind h with h | ⟨v, n, hv, h⟩
      · exact Next.logicalLeft.founders (Expr.founders hcalls left h)
      split at h
      next => exact (not_misses_pure h).elim
      next hd =>
        exact (Next.logicalRight hv (by simpa using hd)).founders (Expr.founders hcalls right h)
  | .read id name, m, h => by
      cases hf : m.find? id name.lexeme with
      | some v => exact (not_misses_ok (readVariable_some hf) h).elim
      | none =>
          obtain ⟨n, h⟩ := h
          have h := (readVariable_none hf).symm.trans h
          cases h
          exact ⟨_, id, name, .refl, .read hf, rfl, rfl⟩
  | .assign id name value, m, h => by
      rcases misses_bind h with h | ⟨v, n, hv, h⟩
      · exact Next.assigned.founders (Expr.founders hcalls value h)
      refine (Next.write hv).founders ?_
      rcases misses_bind h with h | ⟨_, k, -, h⟩
      · cases hf : n.binder? id name.lexeme with
        | some f => exact (not_misses_ok (writeVariable_some hf) h).elim
        | none =>
            obtain ⟨k, h⟩ := h
            have h := (writeVariable_none hf).symm.trans h
            cases h
            exact ⟨_, id, name, .refl, .write hf, rfl, rfl⟩
      · exact (not_misses_pure h).elim
  | .call callee paren arguments, m, h => by
      rcases misses_bind h with h | ⟨v, n, hv, h⟩
      · exact Next.callee.founders (Expr.founders hcalls callee h)
      rcases misses_bind h with h | ⟨vs, k, hvs, h⟩
      · exact (Next.arguments hv).founders (Expr.foundersAll hcalls arguments h)
      · exact (Next.call hv hvs).founders (hcalls h)
  | .get object name, m, h => by
      rcases misses_bind h with h | ⟨v, n, hv, h⟩
      · exact Next.object.founders (Expr.founders hcalls object h)
      split at h
      next => exact (not_misses_readField h).elim
      next => exact absurd h (not_misses_fail nofun)
  | .set object name value, m, h => by
      rcases misses_bind h with h | ⟨v, n, hv, h⟩
      · exact Next.setObject.founders (Expr.founders hcalls object h)
      split at h
      next =>
        rcases misses_bind h with h | ⟨w, k, -, h⟩
        · exact (Next.setValue hv).founders (Expr.founders hcalls value h)
        · exact (not_misses_ok rfl h).elim
      next => exact absurd h (not_misses_fail nofun)

/-- Expressions one after another. -/
theorem Expr.foundersAll (hcalls : CallsFounder bound) : ∀ (es : List Expr) {m : Machine},
    Misses (Expr.evalAll (Callable.apply bound) es) m line x →
      Founders ⟨bound, .expressions es, m⟩ line x
  | [], m, h => (not_misses_pure h).elim
  | e :: es, m, h => by
      rcases misses_bind h with h | ⟨v, n, hv, h⟩
      · exact Next.firstExpression.founders (Expr.founders hcalls e h)
      rcases misses_bind h with h | ⟨w, k, -, h⟩
      · exact (Next.otherExpressions hv).founders (Expr.foundersAll hcalls es h)
      · exact (not_misses_pure h).elim

end

/-- A loop misses a variable in its condition or in its body. -/
theorem founders_loop {condition : Expr} {body : Stmt}
    (hcondition : ∀ {m : Machine}, Misses (condition.eval (Callable.apply bound)) m line x →
      Founders ⟨bound, .expression condition, m⟩ line x)
    (hbody : ∀ {m : Machine}, Misses (body.exec (Callable.apply bound) bound) m line x →
      Founders ⟨bound, .statement body, m⟩ line x) (rounds : Nat) {m : Machine}
    (h : Misses (repeatWhile (condition.eval (Callable.apply bound))
      (body.exec (Callable.apply bound) bound) rounds) m line x) :
    Founders ⟨bound, .loop condition body rounds, m⟩ line x := by
  induction rounds generalizing m with
  | zero => exact absurd h (not_misses_error rfl nofun)
  | succ rounds ih =>
      rcases misses_bind h with h | ⟨v, n, hv, h⟩
      · exact Next.loopCondition.founders (hcondition h)
      split at h
      next htrue =>
        rcases misses_bind h with h | ⟨flow, k, hflow, h⟩
        · exact (Next.loopBody hv htrue).founders (hbody h)
        cases flow with
        | normal => exact (Next.loopAgain hv htrue hflow).founders (ih h)
        | returned => exact (not_misses_pure h).elim
      next => exact (not_misses_pure h).elim

mutual

theorem Stmt.founders (hcalls : CallsFounder bound) : ∀ (s : Stmt) {m : Machine},
    Misses (s.exec (Callable.apply bound) bound) m line x →
      Founders ⟨bound, .statement s, m⟩ line x
  | .expression e, m, h => by
      rcases misses_bind h with h | ⟨v, n, -, h⟩
      · exact Next.expression.founders (Expr.founders hcalls e h)
      · exact (not_misses_pure h).elim
  | .print e, m, h => by
      rcases misses_bind h with h | ⟨v, n, -, h⟩
      · exact Next.printed.founders (Expr.founders hcalls e h)
      rcases misses_bind h with h | ⟨_, k, -, h⟩
      · exact (not_misses_printLine h).elim
      · exact (not_misses_pure h).elim
  | .var name none, m, h => (not_misses_ok rfl h).elim
  | .var name (some e), m, h => by
      rcases misses_bind h with h | ⟨v, n, -, h⟩
      · exact Next.initializer.founders (Expr.founders hcalls e h)
      · exact (not_misses_ok rfl h).elim
  | .block body, m, h => Next.block.founders (Stmt.foundersAll hcalls body (misses_inScope h))
  | .branch condition yes none, m, h => by
      rcases misses_bind h with h | ⟨v, n, hv, h⟩
      · exact Next.condition.founders (Expr.founders hcalls condition h)
      split at h
      next htrue => exact (Next.yes hv htrue).founders (Stmt.founders hcalls yes h)
      next => exact (not_misses_pure h).elim
  | .branch condition yes (some no), m, h => by
      rcases misses_bind h with h | ⟨v, n, hv, h⟩
      · exact Next.condition.founders (Expr.founders hcalls condition h)
      split at h
      next htrue => exact (Next.yes hv htrue).founders (Stmt.founders hcalls yes h)
      next hfalse =>
        exact (Next.no hv (by simpa using hfalse)).founders (Stmt.founders hcalls no h)
  | .loop condition body, m, h =>
      Next.loop.founders (founders_loop (Expr.founders hcalls condition)
        (Stmt.founders hcalls body) bound h)
  | .function _ _ _, m, h => (not_misses_ok rfl h).elim
  | .ret _ none, m, h => (not_misses_ok rfl h).elim
  | .ret _ (some e), m, h => by
      rcases misses_bind h with h | ⟨v, n, -, h⟩
      · exact Next.returned.founders (Expr.founders hcalls e h)
      · exact (not_misses_pure h).elim
  | .cls _, m, h => (not_misses_ok rfl h).elim

theorem Stmt.foundersAll (hcalls : CallsFounder bound) : ∀ (ss : List Stmt) {m : Machine},
    Misses (Stmt.execAll (Callable.apply bound) bound ss) m line x →
      Founders ⟨bound, .statements ss, m⟩ line x
  | [], m, h => (not_misses_pure h).elim
  | s :: ss, m, h => by
      rcases misses_bind h with h | ⟨flow, n, hflow, h⟩
      · exact Next.firstStatement.founders (Stmt.founders hcalls s h)
      cases flow with
      | normal => exact (Next.otherStatements hflow).founders (Stmt.foundersAll hcalls ss h)
      | returned => exact (not_misses_pure h).elim

end

end

/-- With any bound, a call that misses a variable comes to its access. -/
theorem callsFounder (bound : Nat) : CallsFounder bound := by
  induction bound with
  | zero =>
      intro callee arguments line line' m x h
      unfold callValue at h
      split at h
      next =>
        split at h
        next => exact absurd (misses_entering h).2 (not_misses_error rfl nofun)
        next => exact absurd h (not_misses_fail nofun)
      next => exact absurd h (not_misses_fail nofun)
  | succ bound ih =>
      intro callee arguments line line' m x h
      unfold callValue at h
      split at h
      next i c =>
        split at h
        next arity =>
          obtain ⟨room, h⟩ := misses_entering h
          cases c with
          | host f => exact (not_misses_host h).elim
          | cls name => exact (not_misses_ok rfl h).elim
          | function name parameters body closure =>
              rcases misses_bind (misses_inScope h) with h | ⟨_, n, hn, h⟩
              · exact (not_misses_bindParameters h).elim
              refine (Next.body arity room hn).founders ?_
              rcases misses_bind h with h | ⟨flow, k, -, h⟩
              · exact Stmt.foundersAll ih body h
              · exact (not_misses_pure h).elim
        next => exact absurd h (not_misses_fail nofun)
      next => exact absurd h (not_misses_fail nofun)

/-- **A program that misses a variable comes to its access**, so nothing that matters for variables
is left out of the course of a run. -/
theorem executeProgram_founders {bound line : Nat} {x : String} (program : List Stmt) {m : Machine}
    (h : Misses (executeProgram bound program) m line x) :
    Founders ⟨bound, .statements program, m⟩ line x := by
  induction program generalizing m with
  | nil => exact (not_misses_pure h).elim
  | cons s ss ih =>
      rcases misses_bind h with h | ⟨flow, n, hflow, h⟩
      · exact Next.firstStatement.founders (Stmt.founders (callsFounder bound) s h)
      cases flow with
      | normal => exact (Next.otherStatements hflow).founders (ih h)
      | returned => exact absurd h (not_misses_fail nofun)

end Lox
