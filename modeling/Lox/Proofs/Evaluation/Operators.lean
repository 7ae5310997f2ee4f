import Lox.Proofs.Evaluation.Steps
import Lox.Proofs.Tree.Forms

/-!
# Operators that cannot fail

An operator of a kind that its node does not stand for would be an error of its own when it is
evaluated.  In trees that have the form there is none, and the bodies of all functions that such a
tree leaves behind have the form again, so that the error does not come up later either.

The property is one of machines, of values and of trees at once.  A function is a value that has a
tree in it; it is called later, perhaps by another program, and then the form of its body has to be
known.  So the form is an invariant of the machine, and what the evaluator does to the machine is
said once for each operation.  The walk over the trees then only has to bring the operators of each
node to the one place where their kinds matter.

* `RuntimeFault.isOperator` — the errors of such an operator.
* `Machine.Formed` — every function on a machine has a body in the form.
* `Eval.Lawful` — a step leaves a machine so and does not end in such an error.
* `interpret_lawful` — running a program in the form is such a step.
-/

namespace Lox

/-- Whether an error is that of an operator for which its node does not stand. -/
def RuntimeFault.isOperator : RuntimeFault → Bool
  | .invalidUnaryOperator _ | .invalidBinaryOperator _ => true
  | _ => false

/-! ## Machines

What is asked of a value is asked of the functions in it, and what is asked of a machine is asked of
all values in frames and in fields. -/

/-- If it is a function, its body has the form. -/
def Callable.Formed : Callable → Prop
  | .function _ _ body _ => Stmt.FormedAll (fun _ => True) body
  | _ => True

/-- If a value is a function, its body has the form. -/
def Value.Formed : Value → Prop
  | .callable _ c => c.Formed
  | _ => True

/-- If a statement returns a function, its body has the form. -/
def Flow.Formed : Flow → Prop
  | .normal => True
  | .returned v _ => v.Formed

/-- Every function in a frame or a field has a body in the form. -/
structure Machine.Formed (m : Machine) : Prop where
  frames : ∀ f name v, (m.frames.bindings f).lookup name = some v → v.Formed
  objects : ∀ (i : Nat) name v, (m.objects[i]?.getD []).lookup name = some v → v.Formed

theorem Value.formed_ofLiteral (value : Literal) : (ofLiteral value).Formed := by
  cases value <;> trivial

/-- The value of a call is what its body returned, or `nil`. -/
theorem Flow.Formed.result {flow : Flow} (h : flow.Formed) : flow.result.Formed := by
  cases flow with
  | normal => trivial
  | returned v line => exact h

namespace Machine.Formed

variable {m : Machine} (h : m.Formed)
include h

/-- What is read from a machine has the form. -/
theorem find? {id : NodeId} {name : String} {v : Value} (hv : m.find? id name = some v) :
    v.Formed := by
  unfold Machine.find? at hv
  split at hv
  · obtain ⟨f, -, hv⟩ := Option.bind_eq_some_iff.1 hv
    exact h.frames f name v hv
  · obtain ⟨f, -, hv⟩ := List.exists_of_findSome?_eq_some hv
    exact h.frames f name v hv

/-- A name may be given any value that has the form. -/
theorem bind (f : FrameId) (name : String) {v : Value} (hv : v.Formed) :
    (m.bind f name v).Formed := by
  refine ⟨fun g other w hw => ?_, h.objects⟩
  rw [Machine.bind, Frames.bindings_write] at hw
  split at hw
  next =>
    rw [Bindings.lookup_insert] at hw
    split at hw
    · exact Option.some.inj hw ▸ hv
    · exact h.frames f other w hw
  next => exact h.frames g other w hw

theorem opened (env : Env) : (m.opened env).Formed :=
  ⟨fun f name v hv => h.frames f name v (by rwa [Machine.opened, Frames.bindings_grow] at hv),
    h.objects⟩

theorem withObject : ({ m with objects := m.objects.push [] } : Machine).Formed := by
  refine ⟨h.frames, fun i name v hv => h.objects i name v ?_⟩
  rw [Array.getElem?_push] at hv
  split at hv
  · simp at hv
  · exact hv

/-- A field may be given any value that has the form. -/
theorem withField (i : Nat) (name : String) {v : Value} (hv : v.Formed) :
    ({ m with objects := m.objects.modify i (Bindings.insert name v) } : Machine).Formed := by
  refine ⟨h.frames, fun j other w hw => ?_⟩
  rw [Array.getElem?_modify] at hw
  split at hw
  next same =>
    subst same
    cases hi : m.objects[i]? with
    | none => simp [hi] at hw
    | some fields =>
        simp only [hi, Option.map_some, Option.getD_some, Bindings.lookup_insert] at hw
        split at hw
        · exact Option.some.inj hw ▸ hv
        · exact h.objects i other w (by rwa [hi, Option.getD_some])
  next => exact h.objects j other w hw

end Machine.Formed

/-! ## Steps

A step is given a machine whose functions have the form and leaves one, however it ends; if it
fails, it does so for another reason than an operator. -/

/-- A step, however it ends, leaves every function a body in the form; its result is such that
`post`, and its failure is not that of an operator. -/
def Eval.Lawful {α : Type} (step : Eval α) (post : α → Prop) : Prop :=
  ∀ ⦃m : Machine⦄, m.Formed →
    match step m with
    | .ok a n => n.Formed ∧ post a
    | .error stop n =>
      n.Formed ∧ ∀ line fault, stop = failure line fault → fault.isOperator = false

namespace Eval.Lawful

variable {α β : Type} {post : α → Prop} {post' : β → Prop} {step : Eval α}

/-- What a success yields and leaves. -/
theorem of_ok (h : Lawful step post) {m n : Machine} {a : α} (hm : m.Formed)
    (hs : step m = .ok a n) : n.Formed ∧ post a := by
  have := h hm
  rwa [hs] at this

/-- What a failure is not, and what it leaves. -/
theorem of_error (h : Lawful step post) {m n : Machine} {stop : Stop} (hm : m.Formed)
    (hs : step m = .error stop n) :
    n.Formed ∧ ∀ line fault, stop = failure line fault → fault.isOperator = false := by
  have := h hm
  rwa [hs] at this

theorem pure {a : α} (h : post a) : Lawful (pure a) post :=
  fun _ hm => ⟨hm, h⟩

theorem get : Lawful get fun _ => True :=
  fun _ hm => ⟨hm, trivial⟩

/-- A failure says which fault it is. -/
theorem failure {line : Nat} {fault : RuntimeFault} (h : fault.isOperator = false) :
    ∀ line' fault', Eval.failure line fault = Eval.failure line' fault' →
      fault'.isOperator = false := by
  intro line' fault' same
  injection same with same
  injection same with _ same
  rwa [← same]

/-- A fault that is not one of operators. -/
theorem fail {line : Nat} {fault : RuntimeFault} (h : fault.isOperator = false) :
    Lawful (fail line fault) post :=
  fun _ hm => ⟨hm, failure h⟩

theorem exhausted : Lawful exhausted post :=
  fun _ hm => ⟨hm, fun _ _ same => by cases same⟩

theorem bind {f : α → Eval β} (h : Lawful step post) (hf : ∀ a, post a → Lawful (f a) post') :
    Lawful (step >>= f) post' := by
  intro m hm
  cases hs : step m with
  | ok a n =>
      obtain ⟨hn, ha⟩ := h.of_ok hm hs
      rw [bind_ok hs]
      exact hf a ha hn
  | error stop n =>
      rw [bind_error hs]
      exact h.of_error hm hs

/-- A variable that is found has a value of the form, and one that is not is no matter of
operators. -/
theorem readVariable (id : NodeId) (name : Token) :
    Lawful (readVariable id name) Value.Formed := by
  intro m hm
  cases hf : m.find? id name.lexeme with
  | some v =>
      rw [readVariable_some hf]
      exact ⟨hm, hm.find? hf⟩
  | none =>
      rw [readVariable_none hf]
      exact ⟨hm, failure rfl⟩

/-- To write a value of the form leaves the form. -/
theorem writeVariable (id : NodeId) (name : Token) {v : Value} (hv : v.Formed) :
    Lawful (writeVariable id name v) fun _ => True := by
  intro m hm
  cases hf : m.binder? id name.lexeme with
  | some f =>
      rw [writeVariable_some hf]
      exact ⟨hm.bind f name.lexeme hv, trivial⟩
  | none =>
      rw [writeVariable_none hf]
      exact ⟨hm, failure rfl⟩

theorem define (name : String) {v : Value} (hv : v.Formed) :
    Lawful (define name v) fun _ => True :=
  fun m hm => ⟨hm.bind m.env.innermost name hv, trivial⟩

/-- A function or class that is defined has the form if its body has. -/
theorem defineCallable (name : String) {c : Callable} (hc : c.Formed) :
    Lawful (defineCallable name c) fun _ => True :=
  fun m hm => ⟨Machine.Formed.bind (m := { m with callables := m.callables + 1 })
    ⟨hm.frames, hm.objects⟩ m.env.innermost name hc, trivial⟩

theorem newObject (className : String) : Lawful (newObject className) Value.Formed :=
  fun _ hm => ⟨hm.withObject, trivial⟩

/-- A field that is found has a value of the form. -/
theorem readField (i : Nat) (name : Token) : Lawful (readField i name) Value.Formed := by
  intro m hm
  cases hf : (m.objects[i]?.getD []).lookup name.lexeme with
  | some v =>
      rw [readField_some hf]
      exact ⟨hm, hm.objects i _ v hf⟩
  | none =>
      rw [readField_none hf]
      exact ⟨hm, failure rfl⟩

/-- To write a value of the form into a field leaves the form. -/
theorem writeField (i : Nat) (name : Token) {v : Value} (hv : v.Formed) :
    Lawful (writeField i name v) fun _ => True :=
  fun _ hm => ⟨hm.withField i name.lexeme hv, trivial⟩

theorem readClock : Lawful readClock Value.Formed :=
  fun _ hm => ⟨⟨hm.frames, hm.objects⟩, trivial⟩

/-- Output leaves all values alone. -/
theorem write (text : String) : Lawful (write text) fun _ => True := by
  intro m hm
  cases ha : m.sink.accepts text with
  | true =>
      rw [write_accepted ha]
      exact ⟨⟨hm.frames, hm.objects⟩, trivial⟩
  | false =>
      rw [write_refused ha]
      exact ⟨hm, fun _ _ same => by cases same⟩

theorem printLine (text : String) : Lawful (printLine text) fun _ => True :=
  (write text).bind fun _ _ => write "\n"

theorem flush : Lawful flush fun _ => True := by
  intro m hm
  cases hf : m.sink.flushFails with
  | false =>
      rw [flush_done hf]
      exact ⟨hm, trivial⟩
  | true =>
      rw [flush_failed hf]
      exact ⟨hm, fun _ _ same => by cases same⟩

/-- A scope is left with the values that were written in it. -/
theorem inScope (h : Lawful step post) (env : Env) : Lawful (inScope env step) post := by
  intro m hm
  rw [inScope_eq]
  cases hs : step (m.opened env) with
  | ok a n =>
      obtain ⟨hn, ha⟩ := h.of_ok (hm.opened env) hs
      exact ⟨⟨hn.frames, hn.objects⟩, ha⟩
  | error stop n =>
      obtain ⟨hn, other⟩ := h.of_error (hm.opened env) hs
      exact ⟨⟨hn.frames, hn.objects⟩, other⟩

/-- A call that is one too many fails, but not for an operator. -/
theorem entering (h : Lawful step post) (line : Nat) : Lawful (entering line step) post := by
  intro m hm
  rcases Nat.lt_or_ge m.depth maxDepth with room | full
  · have inside : (m.withDepth (m.depth + 1)).Formed := ⟨hm.frames, hm.objects⟩
    rw [entering_eq room]
    cases hs : step (m.withDepth (m.depth + 1)) with
    | ok a n =>
        obtain ⟨hn, ha⟩ := h.of_ok inside hs
        exact ⟨⟨hn.frames, hn.objects⟩, ha⟩
    | error stop n =>
        obtain ⟨hn, other⟩ := h.of_error inside hs
        exact ⟨⟨hn.frames, hn.objects⟩, other⟩
  · rw [entering_full full]
    exact ⟨hm, failure rfl⟩

end Eval.Lawful

/-! ## Operators

This is the place where kinds matter.  An operator before its operand, and one between operands,
each come to a fault of the operator only if they are of none of their kinds. -/

/-- An operator of the two kinds that can stand before an operand has a meaning. -/
theorem unaryResult_lawful {operator : Token} (h : operator.kind ∈ unaryKinds) (operand : Value) :
    Eval.Lawful (unaryResult operator operand) Value.Formed := by
  unfold unaryResult
  split
  · split
    · exact .pure trivial
    · exact .fail rfl
  · exact .pure trivial
  next other other' =>
    simp only [unaryKinds, List.mem_cons, List.not_mem_nil, or_false] at h
    exact (h.elim other' other).elim

/-- So has every operator between two numbers that is not one for all values. -/
theorem arithmeticResult_lawful {operator : Token} (h : operator.kind ∈ binaryKinds)
    (noEquality : operator.kind ≠ .symbol .equalEqual ∧ operator.kind ≠ .symbol .bangEqual ∧
      operator.kind ≠ .symbol .plus) (x y : Float) :
    Eval.Lawful (arithmeticResult operator x y) Value.Formed := by
  unfold arithmeticResult
  split
  · exact .pure trivial
  · exact .pure trivial
  · split
    · exact .fail rfl
    · exact .pure trivial
  · exact .pure trivial
  · exact .pure trivial
  · exact .pure trivial
  · exact .pure trivial
  · simp_all [binaryKinds]

/-- So has every operator that can stand between two operands. -/
theorem binaryResult_lawful {operator : Token} (h : operator.kind ∈ binaryKinds)
    (left right : Value) : Eval.Lawful (binaryResult left operator right) Value.Formed := by
  unfold binaryResult
  split
  · exact .pure trivial
  · exact .pure trivial
  · split
    · exact .pure trivial
    · exact .pure trivial
    · exact .fail rfl
  next equal unequal plus =>
    split
    · exact arithmeticResult_lawful h ⟨equal, unequal, plus⟩ _ _
    · exact .fail rfl

/-! ## Expressions and statements

By recursion on the tree, with what calls do as a parameter. -/

/-- Calls of functions with bodies in the form are lawful. -/
def Apply.Lawful (apply : Apply) : Prop :=
  ∀ (c : Callable) (arguments : List Value) (line : Nat), c.Formed →
    (∀ v ∈ arguments, v.Formed) → Eval.Lawful (apply c arguments line) Value.Formed

section
variable {apply : Apply} {names : Token → Prop}

/-- What is called is a function of the form, or no function, which is another fault. -/
theorem callValue_lawful (happly : apply.Lawful) {callee : Value} (hc : callee.Formed)
    {arguments : List Value} (ha : ∀ v ∈ arguments, v.Formed) (line : Nat) :
    Eval.Lawful (callValue apply callee arguments line) Value.Formed := by
  unfold callValue
  split
  · split
    · exact .entering (happly _ arguments line hc ha) line
    · exact .fail rfl
  · exact .fail rfl

mutual

/-- **Expressions of the form** yield values of the form. -/
theorem Expr.eval_lawful (happly : apply.Lawful) : ∀ e : Expr, e.Formed names →
    Eval.Lawful (e.eval apply) Value.Formed
  | .literal value, _ => .pure (Value.formed_ofLiteral value)
  | .group inner, h => Expr.eval_lawful happly inner h
  | .unary operator operand, h =>
      (Expr.eval_lawful happly operand h.2).bind fun x _ => unaryResult_lawful h.1 x
  | .binary left operator right, h =>
      (Expr.eval_lawful happly left h.2.1).bind fun x _ =>
        (Expr.eval_lawful happly right h.2.2).bind fun y _ => binaryResult_lawful h.1 x y
  | .logical left operator right, h => by
      refine (Expr.eval_lawful happly left h.2.1).bind fun x hx => ?_
      split
      · exact .pure hx
      · exact Expr.eval_lawful happly right h.2.2
  | .read id name, _ => .readVariable id name
  | .assign id name value, h =>
      (Expr.eval_lawful happly value h.2).bind fun x hx =>
        (Eval.Lawful.writeVariable id name hx).bind fun _ _ => .pure hx
  | .call callee paren arguments, h =>
      (Expr.eval_lawful happly callee h.1).bind fun f hf =>
        (Expr.evalAll_lawful happly arguments h.2.2).bind fun xs hxs =>
          callValue_lawful happly hf hxs paren.line
  | .get object name, h => by
      refine (Expr.eval_lawful happly object h.2).bind fun x _ => ?_
      split
      · exact .readField _ name
      · exact .fail rfl
  | .set object name value, h => by
      refine (Expr.eval_lawful happly object h.2.1).bind fun x _ => ?_
      split
      · exact (Expr.eval_lawful happly value h.2.2).bind fun y hy =>
          (Eval.Lawful.writeField _ name hy).bind fun _ _ => .pure hy
      · exact .fail rfl

theorem Expr.evalAll_lawful (happly : apply.Lawful) : ∀ es : List Expr, Expr.FormedAll names es →
    Eval.Lawful (Expr.evalAll apply es) fun vs => ∀ v ∈ vs, v.Formed
  | [], _ => .pure (by simp)
  | e :: es, h =>
      (Expr.eval_lawful happly e h.1).bind fun x hx =>
        (Expr.evalAll_lawful happly es h.2).bind fun xs hxs =>
          .pure (List.forall_mem_cons.2 ⟨hx, hxs⟩)

end

/-- An expression that may be missing has a value that is allowed, for `nil` is. -/
theorem Expr.evalOption_lawful (happly : apply.Lawful) (e : Option Expr)
    (h : ∀ e' ∈ e, e'.Formed names) : Eval.Lawful (Expr.evalOption apply e) Value.Formed := by
  cases e with
  | none => exact .pure trivial
  | some e => exact Expr.eval_lawful happly e (h e rfl)

/-- A loop does if its parts do, with any number of rounds. -/
theorem repeatWhile_lawful {condition : Eval Value} {body : Eval Flow}
    (hc : Eval.Lawful condition Value.Formed) (hb : Eval.Lawful body Flow.Formed) (rounds : Nat) :
    Eval.Lawful (repeatWhile condition body rounds) Flow.Formed := by
  induction rounds with
  | zero => exact .exhausted
  | succ rounds ih =>
      refine hc.bind fun x _ => ?_
      split
      · refine hb.bind fun flow hflow => ?_
        cases flow with
        | normal => exact ih
        | returned => exact .pure hflow
      · exact .pure trivial

variable {rounds : Nat}

mutual

/-- **Statements of the form** return values of the form, if they return. -/
theorem Stmt.exec_lawful (happly : apply.Lawful) : ∀ s : Stmt, s.Formed names →
    Eval.Lawful (s.exec apply rounds) Flow.Formed
  | .expression e, h => (Expr.eval_lawful happly e h).bind fun _ _ => .pure trivial
  | .print e, h =>
      (Expr.eval_lawful happly e h).bind fun x _ => (Eval.Lawful.printLine x.display).bind
        fun _ _ => .pure trivial
  | .var name initializer, h =>
      (Expr.evalOption_lawful happly initializer h.2).bind fun x hx =>
        (Eval.Lawful.define name.lexeme hx).bind fun _ _ => .pure trivial
  | .block body, h =>
      Eval.Lawful.get.bind fun m _ => .inScope (Stmt.execAll_lawful happly body h) m.env
  | .branch condition yes none, h => by
      refine (Expr.eval_lawful happly condition h.1).bind fun x _ => ?_
      split
      · exact Stmt.exec_lawful happly yes h.2
      · exact .pure trivial
  | .branch condition yes (some no), h => by
      refine (Expr.eval_lawful happly condition h.1).bind fun x _ => ?_
      split
      · exact Stmt.exec_lawful happly yes h.2.1
      · exact Stmt.exec_lawful happly no h.2.2
  | .loop condition body, h =>
      repeatWhile_lawful (Expr.eval_lawful happly condition h.1)
        (Stmt.exec_lawful happly body h.2) rounds
  | .function name parameters body, h =>
      Eval.Lawful.get.bind fun m _ =>
        (Eval.Lawful.defineCallable name.lexeme (c := .function name parameters body m.env)
          (Stmt.FormedAll.anyNames body h.2.2)).bind fun _ _ => .pure trivial
  | .ret _ value, h => (Expr.evalOption_lawful happly value h).bind fun _ hx => .pure hx
  | .cls name, _ =>
      (Eval.Lawful.defineCallable name.lexeme (c := .cls name.lexeme) trivial).bind fun _ _ =>
        .pure trivial

theorem Stmt.execAll_lawful (happly : apply.Lawful) : ∀ ss : List Stmt, Stmt.FormedAll names ss →
    Eval.Lawful (Stmt.execAll apply rounds ss) Flow.Formed
  | [], _ => .pure trivial
  | s :: ss, h => by
      refine (Stmt.exec_lawful happly s h.1).bind fun flow hflow => ?_
      cases flow with
      | normal => exact Stmt.execAll_lawful happly ss h.2
      | returned => exact .pure hflow

end

end

/-! ## Calls and programs

A call evaluates a body that was stored as a value.  It has the form because the machine has, with a
smaller bound for the calls inside. -/

/-- Parameters are bound to values of the form. -/
theorem bindParameters_lawful (parameters : List Token) {arguments : List Value}
    (h : ∀ v ∈ arguments, v.Formed) :
    Eval.Lawful (bindParameters parameters arguments) fun _ => True := by
  have bound : ∀ p ∈ parameters.zip arguments, p.2.Formed :=
    fun p hp => h p.2 (List.of_mem_zip hp).2
  unfold bindParameters
  generalize parameters.zip arguments = ps at bound ⊢
  induction ps with
  | nil => exact .pure trivial
  | cons p ps ih =>
      rw [List.forall_mem_cons] at bound
      exact (Eval.Lawful.define p.1.lexeme bound.1).bind fun _ _ => ih bound.2

/-- **Calls with any bound** keep the form. -/
theorem Callable.apply_lawful (bound : Nat) : Apply.Lawful (Callable.apply bound) := by
  induction bound with
  | zero => exact fun _ _ _ _ _ => .exhausted
  | succ bound ih =>
      intro c arguments line hc ha
      cases c with
      | host f =>
          cases f with
          | clock => exact .readClock
          | lastArgument =>
              refine .pure ?_
              cases last : arguments.getLast? with
              | none => trivial
              | some v => exact ha v (List.mem_of_getLast? last)
          | failing => exact .fail rfl
      | cls name => exact .newObject name
      | function name parameters body closure =>
          exact .inScope ((bindParameters_lawful parameters ha).bind fun _ _ =>
            (Stmt.execAll_lawful ih body hc).bind fun flow hflow => .pure hflow.result) closure

/-- So do the statements of a program, one after another. -/
theorem executeProgram_lawful (bound : Nat) {names : Token → Prop} {program : List Stmt}
    (h : Stmt.FormedAll names program) :
    Eval.Lawful (executeProgram bound program) fun _ => True := by
  induction program with
  | nil => exact .pure trivial
  | cons s ss ih =>
      refine (Stmt.exec_lawful (Callable.apply_lawful bound) s h.1).bind fun flow _ => ?_
      cases flow with
      | normal => exact ih h.2
      | returned => exact .fail rfl

/-- A program in the form, on a machine of functions in the form, meets no invalid operator. -/
theorem interpret_lawful (bound : Nat) {names : Token → Prop} {program : List Stmt}
    (h : Stmt.FormedAll names program) : Eval.Lawful (interpret bound program) fun _ => True :=
  (executeProgram_lawful bound h).bind fun _ _ => .flush

end Lox
