import Lox.Proofs.Evaluation.Steps

/-!
# What all steps have in common

A run is made of the operations on the machine, one after another, in scopes and in calls.  So a
property of steps that each operation has, and that passes on to sequences, scopes and calls, is one
of every run, whatever the program, the machine and the bound.  A property that declarations do not
have is still one of expressions.  Only a program, when one of its statements ends with a return,
fails for that; no other step does.

As with the rules of the grammar, the evaluator is walked over once, for an arbitrary property of
steps.  What is asked of the property is a structure, with a field for each operation on the
machine, so that to prove something of all runs is to give that structure.  There are two of them,
because there are two grades: properties that expressions have, and those that scopes and
declarations have as well.

* `Eval.Passes` — a property that passes on to sequences and to calls.
* `Eval.Passes.eval`, `.callee` — expressions, and callables whose body has it.
* `Eval.Closed` — a property that passes on to scopes as well, and that declarations have.
* `Eval.Moves`, `Eval.Law.passes` — a relation between the machines before and after a step, and
  what is asked of it for this to be a property that passes on.
* `Eval.Closed.exec`, `.apply`, `.interpret` — the runs that have it.
-/

namespace Lox

/-- A property of steps that every operation on the machine has but for those that bind a name, and
that passes on to sequences and to calls. -/
structure Eval.Passes (P : ∀ {α : Type}, Eval α → Prop) : Prop where
  pure {α : Type} (a : α) : P (pure a : Eval α)
  get : P (get : Eval Machine)
  fail {α : Type} (line : Nat) {fault : RuntimeFault} (h : fault ≠ .returnOutsideFunction) :
    P (Eval.fail line fault : Eval α)
  exhausted {α : Type} : P (Eval.exhausted : Eval α)
  bind {α β : Type} {step : Eval α} {f : α → Eval β} (h : P step) (hf : ∀ a, P (f a)) :
    P (step >>= f)
  readVariable (id : NodeId) (name : Token) : P (Eval.readVariable id name)
  writeVariable (id : NodeId) (name : Token) (v : Value) : P (Eval.writeVariable id name v)
  newObject (className : String) : P (Eval.newObject className)
  readField (i : Nat) (name : Token) : P (Eval.readField i name)
  writeField (i : Nat) (name : Token) (v : Value) : P (Eval.writeField i name v)
  readClock : P Eval.readClock
  write (text : String) : P (Eval.write text)
  flush : P Eval.flush
  entering {α : Type} {step : Eval α} (h : P step) (line : Nat) : P (Eval.entering line step)

/-- A property of steps that every operation on the machine has, and that passes on to sequences,
to new scopes, and to calls. -/
structure Eval.Closed (P : ∀ {α : Type}, Eval α → Prop) : Prop extends Passes P where
  define (name : String) (v : Value) : P (Eval.define name v)
  defineCallable (name : String) (c : Callable) : P (Eval.defineCallable name c)
  inScope {α : Type} {step : Eval α} (h : P step) (env : Env) : P (Eval.inScope env step)

/-! ## Relations between machines

Most properties say how the machine after a step relates to the one before.  These are given by a
relation, and by a property of the stops that a step can end in. -/

/-- A step takes every machine to one that is related to it, however it ends, and stops for certain
causes only. -/
def Eval.Moves (R : Machine → Machine → Prop) (S : Stop → Prop) {α : Type} (step : Eval α) : Prop :=
  ∀ m : Machine, match step m with
    | .ok _ n => R m n
    | .error stop n => R m n ∧ S stop

/-- What is asked of a relation and of the causes for all operations to move so but for those that
bind a name or open a scope. -/
structure Eval.Law (R : Machine → Machine → Prop) (S : Stop → Prop) : Prop where
  trans {m n k : Machine} (h : R m n) (h' : R n k) : R m k
  unseen {m n : Machine} (frames : n.frames = m.frames) (env : n.env = m.env)
    (depth : n.depth = m.depth) (distances : n.distances = m.distances) : R m n
  rebind {m : Machine} {f : FrameId} {x : String} (bound : (m.frames.bindings f).binds x = true)
    (v : Value) : R m (m.bind f x v)
  finish {m n : Machine} (h : R (m.withDepth (m.depth + 1)) n) : R m (n.withDepth (n.depth - 1))
  fails (line : Nat) {fault : RuntimeFault} (h : fault ≠ .returnOutsideFunction) :
    S (failure line fault)
  output (fault : OutputFault) : S (.failed (.output fault))
  exhausted : S .exhausted

namespace Eval.Moves

variable {R R' : Machine → Machine → Prop} {S : Stop → Prop}
variable {α β : Type} {step : Eval α} {m n : Machine}

theorem of_ok (h : Moves R S step) {a : α} (hs : step m = .ok a n) : R m n := by
  have := h m
  rwa [hs] at this

/-- The machine after a failure, and the stop. -/
theorem of_error (h : Moves R S step) {stop : Stop} (hs : step m = .error stop n) :
    R m n ∧ S stop := by
  have := h m
  rwa [hs] at this

/-- A sequence, if the relation is transitive. -/
theorem bind (law : Law R S) {f : α → Eval β} (h : Moves R S step) (hf : ∀ a, Moves R S (f a)) :
    Moves R S (step >>= f) := by
  intro m
  cases hs : step m with
  | ok a n =>
      rw [bind_ok hs]
      have first := h.of_ok hs
      cases hk : f a n with
      | ok b k => exact law.trans first ((hf a).of_ok hk)
      | error stop k =>
          obtain ⟨next, allowed⟩ := (hf a).of_error hk
          exact ⟨law.trans first next, allowed⟩
  | error stop n =>
      rw [bind_error hs]
      exact h.of_error hs

theorem inScope (close : ∀ {m n : Machine} {env : Env}, R (m.opened env) n → R' m (n.within m.env))
    (h : Moves R S step) (env : Env) : Moves R' S (inScope env step) := by
  intro m
  rw [inScope_eq]
  cases hs : step (m.opened env) with
  | ok a n => exact close (h.of_ok hs)
  | error stop n => exact ⟨close (h.of_error hs).1, (h.of_error hs).2⟩

/-- A call with no room for it changes nothing, one that is entered counts for as long as it
lasts. -/
theorem entering (law : Law R S) (h : Moves R S step) (line : Nat) :
    Moves R S (entering line step) := by
  intro m
  rcases Nat.lt_or_ge m.depth maxDepth with room | full
  · rw [entering_eq room]
    cases hs : step (m.withDepth (m.depth + 1)) with
    | ok a n => exact law.finish (h.of_ok hs)
    | error stop n => exact ⟨law.finish (h.of_error hs).1, (h.of_error hs).2⟩
  · rw [entering_full full]
    exact ⟨law.unseen rfl rfl rfl rfl, law.fails line nofun⟩

end Eval.Moves

/-- A law is enough for sequences and calls to move so as well. -/
theorem Eval.Law.passes {R : Machine → Machine → Prop} {S : Stop → Prop} (law : Law R S) :
    Passes (Moves R S) where
  pure _ _ := law.unseen rfl rfl rfl rfl
  get _ := law.unseen rfl rfl rfl rfl
  fail line _ h _ := ⟨law.unseen rfl rfl rfl rfl, law.fails line h⟩
  exhausted _ := ⟨law.unseen rfl rfl rfl rfl, law.exhausted⟩
  bind h hf := h.bind law hf
  readVariable id name := by
    intro m
    cases hv : m.find? id name.lexeme with
    | some v =>
        rw [readVariable_some hv]
        exact law.unseen rfl rfl rfl rfl
    | none =>
        rw [readVariable_none hv]
        exact ⟨law.unseen rfl rfl rfl rfl, law.fails _ nofun⟩
  writeVariable id name v := by
    intro m
    cases hf : m.binder? id name.lexeme with
    | some f =>
        rw [writeVariable_some hf]
        exact law.rebind (Machine.binds_of_binder? hf) v
    | none =>
        rw [writeVariable_none hf]
        exact ⟨law.unseen rfl rfl rfl rfl, law.fails _ nofun⟩
  newObject _ _ := law.unseen rfl rfl rfl rfl
  readField i name := by
    intro m
    cases hv : (m.objects[i]?.getD []).lookup name.lexeme with
    | some v =>
        rw [readField_some hv]
        exact law.unseen rfl rfl rfl rfl
    | none =>
        rw [readField_none hv]
        exact ⟨law.unseen rfl rfl rfl rfl, law.fails _ nofun⟩
  writeField _ _ _ _ := law.unseen rfl rfl rfl rfl
  readClock _ := law.unseen rfl rfl rfl rfl
  write text := by
    intro m
    cases ha : m.sink.accepts text with
    | true =>
        rw [write_accepted ha]
        exact law.unseen rfl rfl rfl rfl
    | false =>
        rw [write_refused ha]
        exact ⟨law.unseen rfl rfl rfl rfl, law.output _⟩
  flush := by
    intro m
    cases hf : m.sink.flushFails with
    | false =>
        rw [flush_done hf]
        exact law.unseen rfl rfl rfl rfl
    | true =>
        rw [flush_failed hf]
        exact ⟨law.unseen rfl rfl rfl rfl, law.output _⟩
  entering h := h.entering law

namespace Eval.Passes

variable {P : ∀ {α : Type}, Eval α → Prop}

/-- An operator yields a constant or fails. -/
theorem of_computes (passes : Passes P) {step : Eval Value} (h : step.Computes) : P step := by
  rcases h with ⟨constant, rfl⟩ | ⟨line, fault, other, rfl⟩
  · exact passes.pure _
  · exact passes.fail line other.inside

/-- A line is its text and its end. -/
theorem printLine (passes : Passes P) (text : String) : P (printLine text) :=
  passes.bind (passes.write text) fun _ => passes.write "\n"

/-! ## Expressions

By recursion on the tree, given that calls have the property. -/

section
variable {apply : Apply}

/-- A call of a value, which may not be one that can be called. -/
theorem callValue (passes : Passes P) (h : ∀ c arguments line, P (apply c arguments line))
    (callee : Value) (arguments : List Value) (line : Nat) :
    P (callValue apply callee arguments line) := by
  unfold Lox.callValue
  split
  · split
    · exact passes.entering (h _ arguments line) line
    · exact passes.fail _ nofun
  · exact passes.fail _ nofun

mutual

/-- **Every expression** has the property. -/
theorem eval (passes : Passes P) (h : ∀ c arguments line, P (apply c arguments line)) :
    ∀ e : Expr, P (e.eval apply)
  | .literal _ => passes.pure _
  | .group inner => passes.eval h inner
  | .unary operator operand =>
      passes.bind (passes.eval h operand) fun x =>
        passes.of_computes (unaryResult_computes operator x)
  | .binary left operator right =>
      passes.bind (passes.eval h left) fun x => passes.bind (passes.eval h right) fun y =>
        passes.of_computes (binaryResult_computes x operator y)
  | .logical left operator right => by
      refine passes.bind (passes.eval h left) fun x => ?_
      split
      · exact passes.pure _
      · exact passes.eval h right
  | .read id name => passes.readVariable id name
  | .assign id name value =>
      passes.bind (passes.eval h value) fun x =>
        passes.bind (passes.writeVariable id name x) fun _ => passes.pure _
  | .call callee paren arguments =>
      passes.bind (passes.eval h callee) fun f => passes.bind (passes.evalAll h arguments) fun xs =>
        passes.callValue h f xs paren.line
  | .get object name => by
      refine passes.bind (passes.eval h object) fun x => ?_
      split
      · exact passes.readField _ name
      · exact passes.fail _ nofun
  | .set object name value => by
      refine passes.bind (passes.eval h object) fun x => ?_
      split
      · exact passes.bind (passes.eval h value) fun y =>
          passes.bind (passes.writeField _ name y) fun _ => passes.pure _
      · exact passes.fail _ nofun

theorem evalAll (passes : Passes P) (h : ∀ c arguments line, P (apply c arguments line)) :
    ∀ es : List Expr, P (Expr.evalAll apply es)
  | [] => passes.pure _
  | e :: es =>
      passes.bind (passes.eval h e) fun _ =>
        passes.bind (passes.evalAll h es) fun _ => passes.pure _

end

/-- An expression that may be missing has the property, for what is missing is `nil` at once. -/
theorem evalOption (passes : Passes P) (h : ∀ c arguments line, P (apply c arguments line))
    (e : Option Expr) : P (Expr.evalOption apply e) := by
  cases e with
  | none => exact passes.pure _
  | some e => exact passes.eval h e

/-- A loop has it if its parts have. -/
theorem repeatWhile (passes : Passes P) {condition : Eval Value} {body : Eval Flow}
    (hc : P condition) (hb : P body) (rounds : Nat) : P (repeatWhile condition body rounds) := by
  induction rounds with
  | zero => exact passes.exhausted
  | succ rounds ih =>
      refine passes.bind hc fun x => ?_
      split
      · refine passes.bind hb fun flow => ?_
        cases flow with
        | normal => exact ih
        | returned => exact passes.pure _
      · exact passes.pure _

end

/-- What a call does has the property if the bodies of functions have it, in the new scope that they
run in. -/
theorem callee (passes : Passes P) (bound : Nat)
    (h : ∀ parameters arguments body closure, P (Eval.inScope closure do
      bindParameters parameters arguments
      return (← Stmt.execAll (Callable.apply bound) bound body).result))
    (c : Callable) (arguments : List Value) (line : Nat) :
    P (Callable.apply (bound + 1) c arguments line) := by
  cases c with
  | host f =>
      cases f with
      | clock => exact passes.readClock
      | lastArgument => exact passes.pure _
      | failing => exact passes.fail _ nofun
  | cls name => exact passes.newObject name
  | function _ parameters body closure => exact h parameters arguments body closure

end Eval.Passes

namespace Eval.Closed

variable {P : ∀ {α : Type}, Eval α → Prop}

section
variable {apply : Apply} {rounds : Nat}

/-! ## Statements

By recursion on the tree again; a block is a scope. -/

mutual

/-- **Every statement** has the property. -/
theorem exec (closed : Closed P) (h : ∀ c arguments line, P (apply c arguments line)) :
    ∀ s : Stmt, P (s.exec apply rounds)
  | .expression e => closed.bind (closed.eval h e) fun _ => closed.pure _
  | .print e =>
      closed.bind (closed.eval h e) fun x => closed.bind (closed.printLine x.display) fun _ =>
        closed.pure _
  | .var name initializer =>
      closed.bind (closed.evalOption h initializer) fun x =>
        closed.bind (closed.define name.lexeme x) fun _ => closed.pure _
  | .block body => closed.bind closed.get fun m => closed.inScope (closed.execAll h body) m.env
  | .branch condition yes none => by
      refine closed.bind (closed.eval h condition) fun x => ?_
      split
      · exact closed.exec h yes
      · exact closed.pure _
  | .branch condition yes (some no) => by
      refine closed.bind (closed.eval h condition) fun x => ?_
      split
      · exact closed.exec h yes
      · exact closed.exec h no
  | .loop condition body =>
      closed.repeatWhile (closed.eval h condition) (closed.exec h body) rounds
  | .function name parameters body =>
      closed.bind closed.get fun m =>
        closed.bind (closed.defineCallable name.lexeme (.function name parameters body m.env))
          fun _ => closed.pure _
  | .ret _ value => closed.bind (closed.evalOption h value) fun _ => closed.pure _
  | .cls name =>
      closed.bind (closed.defineCallable name.lexeme (.cls name.lexeme)) fun _ => closed.pure _

theorem execAll (closed : Closed P) (h : ∀ c arguments line, P (apply c arguments line)) :
    ∀ ss : List Stmt, P (Stmt.execAll apply rounds ss)
  | [] => closed.pure _
  | s :: ss => by
      refine closed.bind (closed.exec h s) fun flow => ?_
      cases flow with
      | normal => exact closed.execAll h ss
      | returned => exact closed.pure _

end

end

/-! ## Calls and programs

By induction on the bound, which is what calls have in common with the calls inside of them. -/

/-- Parameters are bound one after another. -/
theorem bindParameters (closed : Closed P) (parameters : List Token) (arguments : List Value) :
    P (bindParameters parameters arguments) := by
  unfold Lox.bindParameters
  induction parameters.zip arguments with
  | nil => exact closed.pure _
  | cons p ps ih => exact closed.bind (closed.define p.1.lexeme p.2) fun _ => ih

/-- What a function does in the scope of a call. -/
theorem body (closed : Closed P) (bound : Nat)
    (h : ∀ c arguments line, P (Callable.apply bound c arguments line)) (parameters : List Token)
    (arguments : List Value) (body : List Stmt) : P (do
      Lox.bindParameters parameters arguments
      return (← Stmt.execAll (Callable.apply bound) bound body).result) :=
  closed.bind (closed.bindParameters parameters arguments) fun _ =>
    closed.bind (closed.execAll h body) fun _ => closed.pure _

/-- **Every call** has the property, with any bound. -/
theorem apply (closed : Closed P) (bound : Nat) (c : Callable) (arguments : List Value)
    (line : Nat) : P (Callable.apply bound c arguments line) := by
  induction bound generalizing c arguments line with
  | zero => exact closed.exhausted
  | succ bound ih =>
      refine closed.callee bound (fun parameters arguments body closure => ?_) c arguments line
      exact closed.inScope (closed.body bound ih parameters arguments body) closure

theorem evaluate (closed : Closed P) (bound : Nat) (e : Expr) : P (evaluate bound e) :=
  closed.eval (closed.apply bound) e

theorem execute (closed : Closed P) (bound : Nat) (s : Stmt) : P (execute bound s) :=
  closed.exec (closed.apply bound) s

theorem executeIn (closed : Closed P)
    (within : ∀ {step : Eval Flow} (env : Env), P step → P (Eval.within env step)) (bound : Nat)
    (env : Env) (body : List Stmt) : P (executeIn bound env body) :=
  within env (closed.execAll (closed.apply bound) body)

/-- The statements of a program, given that the failure of a return at the top has the property. -/
theorem executeProgram (closed : Closed P)
    (top : ∀ line, P (Eval.fail line .returnOutsideFunction : Eval Unit)) (bound : Nat)
    (program : List Stmt) : P (executeProgram bound program) := by
  induction program with
  | nil => exact closed.pure _
  | cons s ss ih =>
      refine closed.bind (closed.execute bound s) fun flow => ?_
      cases flow with
      | normal => exact ih
      | returned => exact top _

/-- **Every program** has it. -/
theorem interpret (closed : Closed P)
    (top : ∀ line, P (Eval.fail line .returnOutsideFunction : Eval Unit)) (bound : Nat)
    (program : List Stmt) : P (interpret bound program) :=
  closed.bind (closed.executeProgram top bound program) fun _ => closed.flush

end Eval.Closed

end Lox
