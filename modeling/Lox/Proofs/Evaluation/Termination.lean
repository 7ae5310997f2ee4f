import Lox.Proofs.Evaluation.Regions

/-!
# Programs without loops

Calls in calls are counted, and there is room for finitely many.  So a run can only go on for ever
in a loop, and it makes none if neither its program nor any function that it can get at has one.

There are two ways to go on for ever, and the evaluator counts both: rounds of a loop and calls in
calls.  Without loops only the calls are left, and of these there is a limit on the machine itself,
after which a call fails.  So `d`, the number of calls in progress, and the bound together must make
up for that limit, and each call adds one to the first and takes one off the second.  What a run
must not come to is a function with a loop in it; that is the region that it does not leave.

* `Eval.Ends` — a step does not give up, and does not leave its region.
* `Callable.apply_ends` — calls end within a bound that makes up for the calls there is room for.
* `interpret_ends` — and so do programs.
-/

namespace Lox

/-! ## Steps that end

A step ends on every machine of the region with `d` calls in progress: it yields a value with the
property or fails, and in both cases the machine is of the region again. -/

/-- From every machine confined to the region on which `d` calls are in progress, a step ends, with
a result such that `Q` or with an error, and leaves such a machine; it does not give up. -/
def Eval.Ends {α : Type} (r : Region) (d : Nat) (step : Eval α) (Q : α → Prop) : Prop :=
  ∀ m : Machine, m.Confined r → m.depth = d →
    match step m with
    | .ok a n => n.Confined r ∧ n.depth = d ∧ Q a
    | .error stop n => n.Confined r ∧ n.depth = d ∧ stop ≠ .exhausted

namespace Eval.Ends

variable {α β : Type} {r : Region} {d : Nat} {step : Eval α} {Q : α → Prop}

theorem pure {a : α} (h : Q a) : Ends r d (pure a) Q :=
  fun _ hm hd => ⟨hm, hd, h⟩

theorem fail (line : Nat) (fault : RuntimeFault) : Ends r d (fail line fault) Q :=
  fun _ hm hd => ⟨hm, hd, nofun⟩

theorem get_bind {f : Machine → Eval α} (h : ∀ m : Machine, m.Confined r → Ends r d (f m) Q) :
    Ends r d (get >>= f) Q :=
  fun m hm hd => h m hm m hm hd

/-- One step after another, on the machine that the first has left. -/
theorem bind {f : α → Eval β} {R : β → Prop} (h : Ends r d step Q)
    (hf : ∀ a, Q a → Ends r d (f a) R) : Ends r d (step >>= f) R := by
  intro m hm hd
  have first := h m hm hd
  cases hs : step m with
  | ok a n =>
      rw [hs] at first
      rw [bind_ok hs]
      exact hf a first.2.2 n first.1 first.2.1
  | error stop n =>
      rw [hs] at first
      rw [bind_error hs]
      exact first

/-- An operator yields a constant or fails. -/
theorem of_computes {step : Eval Value} (h : step.Computes) : Ends r d step (Value.Confined r) := by
  rcases h with ⟨constant, rfl⟩ | ⟨line, fault, -, rfl⟩
  · exact pure (by cases constant <;> trivial)
  · exact fail line fault

/-! Each operation on the machine. -/

/-- What is read is of the region. -/
theorem readVariable (id : NodeId) (name : Token) :
    Ends r d (readVariable id name) (Value.Confined r) := by
  intro m hm hd
  cases hv : m.find? id name.lexeme with
  | some v =>
      rw [readVariable_some hv]
      exact ⟨hm, hd, hm.find? hv⟩
  | none =>
      rw [readVariable_none hv]
      exact ⟨hm, hd, nofun⟩

/-- A value of the region may be written. -/
theorem writeVariable (id : NodeId) (name : Token) {v : Value} (hv : v.Confined r) :
    Ends r d (writeVariable id name v) fun _ => True := by
  intro m hm hd
  cases hf : m.binder? id name.lexeme with
  | some f =>
      rw [writeVariable_some hf]
      exact ⟨hm.bind f name.lexeme hv, hd, trivial⟩
  | none =>
      rw [writeVariable_none hf]
      exact ⟨hm, hd, nofun⟩

theorem define (name : String) {v : Value} (hv : v.Confined r) :
    Ends r d (define name v) fun _ => True :=
  fun m hm hd => ⟨hm.bind m.env.innermost name hv, hd, trivial⟩

/-- A function may be defined if it is confined, its body free of loops and its environment inside
the region. -/
theorem defineCallable (name : String) {c : Callable} (hc : c.Confined r) :
    Ends r d (defineCallable name c) fun _ => True := by
  intro m hm hd
  have made : ({ m with callables := m.callables + 1 } : Machine).Confined r :=
    ⟨hm.globals, hm.current, hm.bound, hm.field, hm.newFrame, hm.newObject⟩
  exact ⟨made.bind m.env.innermost name (v := .callable m.callables c) hc, hd, trivial⟩

/-- New objects are of the region. -/
theorem newObject (className : String) : Ends r d (newObject className) (Value.Confined r) :=
  fun m hm hd => ⟨hm.withObject, hd, hm.newObject m.objects.size (Nat.le_refl _)⟩

/-- What is read from a field of an object of the region is of it. -/
theorem readField {i : Nat} (hi : r.object i) (name : Token) :
    Ends r d (readField i name) (Value.Confined r) := by
  intro m hm hd
  cases hv : (m.objects[i]?.getD []).lookup name.lexeme with
  | some v =>
      rw [readField_some hv]
      exact ⟨hm, hd, hm.field i hi name.lexeme v hv⟩
  | none =>
      rw [readField_none hv]
      exact ⟨hm, hd, nofun⟩

/-- A value of the region may be written into a field. -/
theorem writeField (i : Nat) (name : Token) {v : Value} (hv : v.Confined r) :
    Ends r d (writeField i name v) fun _ => True :=
  fun _ hm hd => ⟨hm.withField i name.lexeme hv, hd, trivial⟩

theorem readClock : Ends r d readClock (Value.Confined r) :=
  fun _ hm hd =>
    ⟨⟨hm.globals, hm.current, hm.bound, hm.field, hm.newFrame, hm.newObject⟩, hd, trivial⟩

/-- Output ends, whether it is accepted or not. -/
theorem write (text : String) : Ends r d (write text) fun _ => True := by
  intro m hm hd
  cases ha : m.sink.accepts text with
  | true =>
      rw [write_accepted ha]
      exact ⟨⟨hm.globals, hm.current, hm.bound, hm.field, hm.newFrame, hm.newObject⟩, hd, trivial⟩
  | false =>
      rw [write_refused ha]
      exact ⟨hm, hd, nofun⟩

theorem printLine (text : String) : Ends r d (printLine text) fun _ => True :=
  (write text).bind fun _ _ => write "\n"

theorem flush : Ends r d flush fun _ => True := by
  intro m hm hd
  cases hf : m.sink.flushFails with
  | false =>
      rw [flush_done hf]
      exact ⟨hm, hd, trivial⟩
  | true =>
      rw [flush_failed hf]
      exact ⟨hm, hd, nofun⟩

/-! Scopes and calls. -/

/-- A scope in an environment of the region. -/
theorem inScope {env : Env} (henv : ∀ f ∈ env.frames, r.frame f) (h : Ends r d step Q) :
    Ends r d (inScope env step) Q := by
  intro m hm hd
  have inside := h (m.opened env) (hm.opened henv) hd
  rw [inScope_eq]
  cases hs : step (m.opened env) with
  | ok a n =>
      rw [hs] at inside
      exact ⟨inside.1.within hm.current, inside.2⟩
  | error stop n =>
      rw [hs] at inside
      exact ⟨inside.1.within hm.current, inside.2⟩

/-- A call for which there is no room is an error; another one has one call more in progress. -/
theorem entering (h : d < maxDepth → Ends r (d + 1) step Q) (line : Nat) :
    Ends r d (entering line step) Q := by
  intro m hm hd
  rcases Nat.lt_or_ge m.depth maxDepth with room | full
  · have inside := h (hd ▸ room) (m.withDepth (m.depth + 1)) (hm.withDepth _)
      (congrArg (· + 1) hd)
    rw [entering_eq room]
    cases hs : step (m.withDepth (m.depth + 1)) with
    | ok a n =>
        rw [hs] at inside
        obtain ⟨hn, depth, ha⟩ := inside
        exact ⟨hn.withDepth _, Nat.sub_eq_of_eq_add depth, ha⟩
    | error stop n =>
        rw [hs] at inside
        obtain ⟨hn, depth, hstop⟩ := inside
        exact ⟨hn.withDepth _, Nat.sub_eq_of_eq_add depth, hstop⟩
  · rw [entering_full full]
    exact ⟨hm, hd, nofun⟩

end Eval.Ends

open Eval

/-! ## Expressions

By recursion on the tree, given that calls end. -/

/-- Calls end that are entered when `d` are in progress, if there is room for them. -/
def Apply.Ends (r : Region) (d : Nat) (apply : Apply) : Prop :=
  d < maxDepth → ∀ (c : Callable) (arguments : List Value) (line : Nat), c.Confined r →
    (∀ v ∈ arguments, v.Confined r) →
      Eval.Ends r (d + 1) (apply c arguments line) (Value.Confined r)

section
variable {apply : Apply} {r : Region} {d : Nat}

/-- A call of a value ends: it is a function of the region, or it fails. -/
theorem callValue_ends (h : apply.Ends r d) {callee : Value} (hc : callee.Confined r)
    {arguments : List Value} (ha : ∀ v ∈ arguments, v.Confined r) (line : Nat) :
    Eval.Ends r d (callValue apply callee arguments line) (Value.Confined r) := by
  unfold callValue
  split
  · split
    · exact .entering (fun room => h room _ arguments line hc ha) line
    · exact .fail _ _
  · exact .fail _ _

mutual

/-- **Every expression ends.** -/
theorem Expr.eval_ends (h : apply.Ends r d) :
    ∀ e : Expr, Eval.Ends r d (e.eval apply) (Value.Confined r)
  | .literal value => .of_computes (.inl ⟨value, rfl⟩)
  | .group inner => Expr.eval_ends h inner
  | .unary operator operand =>
      (Expr.eval_ends h operand).bind fun x _ => .of_computes (unaryResult_computes operator x)
  | .binary left operator right =>
      (Expr.eval_ends h left).bind fun x _ => (Expr.eval_ends h right).bind fun y _ =>
        .of_computes (binaryResult_computes x operator y)
  | .logical left operator right => by
      refine (Expr.eval_ends h left).bind fun x hx => ?_
      split
      · exact .pure hx
      · exact Expr.eval_ends h right
  | .read id name => .readVariable id name
  | .assign id name value =>
      (Expr.eval_ends h value).bind fun _ hx =>
        (Ends.writeVariable id name hx).bind fun _ _ => .pure hx
  | .call callee paren arguments =>
      (Expr.eval_ends h callee).bind fun _ hf =>
        (Expr.evalAll_ends h arguments).bind fun _ hxs => callValue_ends h hf hxs paren.line
  | .get object name => by
      refine (Expr.eval_ends h object).bind fun x hx => ?_
      split
      · exact .readField hx name
      · exact .fail _ _
  | .set object name value => by
      refine (Expr.eval_ends h object).bind fun x _ => ?_
      split
      · exact (Expr.eval_ends h value).bind fun _ hy =>
          (Ends.writeField _ name hy).bind fun _ _ => .pure hy
      · exact .fail _ _

/-- So do expressions one after another. -/
theorem Expr.evalAll_ends (h : apply.Ends r d) :
    ∀ es : List Expr, Eval.Ends r d (Expr.evalAll apply es) fun vs => ∀ v ∈ vs, v.Confined r
  | [] => .pure (by simp)
  | e :: es =>
      (Expr.eval_ends h e).bind fun _ hx => (Expr.evalAll_ends h es).bind fun _ hxs =>
        .pure (List.forall_mem_cons.2 ⟨hx, hxs⟩)

end

/-- So does one that may be missing. -/
theorem Expr.evalOption_ends (h : apply.Ends r d) (e : Option Expr) :
    Eval.Ends r d (Expr.evalOption apply e) (Value.Confined r) := by
  cases e with
  | none => exact .pure trivial
  | some e => exact Expr.eval_ends h e

/-! ## Statements

The same for statements, which have to be without loops. -/

variable {rounds : Nat}

mutual

/-- **Every statement without a loop ends.** -/
theorem Stmt.exec_ends (h : apply.Ends r d) : ∀ s : Stmt, s.loopFree = true →
    Eval.Ends r d (s.exec apply rounds) (Flow.Confined r)
  | .expression e, _ => (Expr.eval_ends h e).bind fun _ _ => .pure trivial
  | .print e, _ =>
      (Expr.eval_ends h e).bind fun x _ => (Ends.printLine x.display).bind fun _ _ => .pure trivial
  | .var name initializer, _ =>
      (Expr.evalOption_ends h initializer).bind fun _ hx =>
        (Ends.define name.lexeme hx).bind fun _ _ => .pure trivial
  | .block body, free =>
      .get_bind fun _ hm => .inScope hm.current (Stmt.execAll_ends h body free)
  | .branch condition yes none, free => by
      refine (Expr.eval_ends h condition).bind fun x _ => ?_
      split
      · exact Stmt.exec_ends h yes free
      · exact .pure trivial
  | .branch condition yes (some no), free => by
      obtain ⟨freeYes, freeNo⟩ := Bool.and_eq_true_iff.1 free
      refine (Expr.eval_ends h condition).bind fun x _ => ?_
      split
      · exact Stmt.exec_ends h yes freeYes
      · exact Stmt.exec_ends h no freeNo
  | .loop _ _, free => (Bool.false_ne_true free).elim
  | .function name parameters body, free =>
      .get_bind fun m hm =>
        have confined : (Callable.function name parameters body m.env).Confined r :=
          ⟨free, hm.current⟩
        (Ends.defineCallable name.lexeme confined).bind fun _ _ => .pure trivial
  | .ret _ value, _ => (Expr.evalOption_ends h value).bind fun _ hv => .pure hv
  | .cls name, _ =>
      (Ends.defineCallable name.lexeme (c := .cls name.lexeme) trivial).bind fun _ _ =>
        .pure trivial

/-- So do statements one after another. -/
theorem Stmt.execAll_ends (h : apply.Ends r d) : ∀ ss : List Stmt, Stmt.loopFreeAll ss = true →
    Eval.Ends r d (Stmt.execAll apply rounds ss) (Flow.Confined r)
  | [], _ => .pure trivial
  | s :: ss, free => by
      obtain ⟨freeS, freeSs⟩ := Bool.and_eq_true_iff.1 free
      refine (Stmt.exec_ends h s freeS).bind fun flow hflow => ?_
      cases flow with
      | normal => exact Stmt.execAll_ends h ss freeSs
      | returned => exact .pure hflow

end

end

/-! ## Calls and programs

A call has one level less to go and one call more in progress, so the sum stays what it was. -/

section
variable {r : Region} {d : Nat}

/-- Parameters are bound one after another. -/
theorem bindParameters_ends (parameters : List Token) {arguments : List Value}
    (ha : ∀ v ∈ arguments, v.Confined r) :
    Eval.Ends r d (bindParameters parameters arguments) fun _ => True := by
  have confined : ∀ p ∈ parameters.zip arguments, p.2.Confined r :=
    fun p mem => ha p.2 (List.of_mem_zip mem).2
  unfold bindParameters
  generalize parameters.zip arguments = pairs at confined ⊢
  induction pairs with
  | nil => exact .pure trivial
  | cons p ps ih =>
      obtain ⟨hp, hps⟩ := List.forall_mem_cons.1 confined
      exact (Ends.define p.1.lexeme hp).bind fun _ _ => ih hps

/-- **Calls end**, if the bound makes up for the calls that there is room for: every call that is
entered takes one of the bound and one of the room. -/
theorem Callable.apply_ends {bound : Nat} (enough : maxDepth ≤ d + bound) :
    (Callable.apply bound).Ends r d := by
  induction bound generalizing d with
  | zero => exact fun room => absurd enough (Nat.not_le.2 room)
  | succ bound ih =>
      intro room c arguments line hc ha
      cases c with
      | host f =>
          cases f with
          | clock => exact .readClock
          | lastArgument =>
              refine .pure ?_
              cases hlast : arguments.getLast? with
              | none => trivial
              | some v => exact ha v (List.mem_of_getLast? hlast)
          | failing => exact .fail _ _
      | cls name => exact .newObject name
      | function name parameters body closure =>
          obtain ⟨free, henv⟩ := hc
          have inner : (Callable.apply bound).Ends r (d + 1) := ih (by omega)
          refine .inScope henv ((bindParameters_ends parameters ha).bind fun _ _ => ?_)
          refine (Stmt.execAll_ends inner body free).bind fun flow hflow => .pure ?_
          cases flow with
          | normal => trivial
          | returned => exact hflow

/-- The statements of a program end. -/
theorem executeProgram_ends {bound : Nat} (enough : maxDepth ≤ d + bound) {program : List Stmt}
    (free : Stmt.loopFreeAll program = true) :
    Eval.Ends r d (executeProgram bound program) fun _ => True := by
  induction program with
  | nil => exact .pure trivial
  | cons s ss ih =>
      obtain ⟨freeS, freeSs⟩ := Bool.and_eq_true_iff.1 free
      refine (Stmt.exec_ends (Callable.apply_ends enough) s freeS).bind fun flow _ => ?_
      cases flow with
      | normal => exact ih freeSs
      | returned => exact .fail _ _

/-- **A program without loops ends.** -/
theorem interpret_ends {bound : Nat} (enough : maxDepth ≤ d + bound) {program : List Stmt}
    (free : Stmt.loopFreeAll program = true) :
    Eval.Ends r d (interpret bound program) fun _ => True :=
  (executeProgram_ends enough free).bind fun _ _ => .flush

end

end Lox
