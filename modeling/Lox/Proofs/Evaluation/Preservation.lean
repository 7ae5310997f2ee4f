import Lox.Proofs.Evaluation.Binding

/-!
# Runs keep environments and scopes in step

Scopes are opened and closed by the walk over a tree where frames are by a run of it.  So the chain
of the current environment covers the scopes around whatever is being executed, and every function
that is made gets the chain of its own scopes, to be used whenever it is called.

The walk over a tree and its run open and close their scopes at the same places, so the proof goes
along the tree.  A function that is made keeps the chain of its scopes with it, and when it is
called, much later perhaps, with other scopes around, its body is run on that chain: that is why
every function that has been made is spoken of, and not the current environment alone.

* `Expr.eval_keeps`, `Stmt.exec_keeps` — for expressions and statements, if calls keep step.
* `Callable.apply_keeps` — calls do, with any bound.
* `interpret_keeps` — and so do whole programs.
-/

namespace Lox

open Resolution

variable {l : Ledger} {m : Machine} {scopes after : Scopes}

/-! ## New scopes

A frame that is opened covers a scope that binds nothing. -/

/-- A new frame inside a chain, for a new scope inside the scopes that the chain covers. -/
theorem Frames.Covers.opened {env : Env} (h : m.frames.Covers env.frames scopes)
    (settled : scopes.Settled) (inFunction : Bool) :
    (m.opened env).Owns ({ inFunction } :: scopes) := by
  refine ⟨covers_cons.2 ⟨⟨?_, fun x hx => by simp at hx⟩, h.mono Frames.grows_grow⟩,
    List.forall_mem_cons.2 ⟨fun _ => by simp, settled⟩, fun s _ x hx => ?_⟩
  · show m.frames.size < m.frames.grow.size
    simp
  · have bound : (m.frames.grow.bindings m.frames.size).binds x = true := hx
    rw [Frames.bindings_grow] at bound
    simp [Frames.bindings, Bindings.binds] at bound

/-- A new scope makes no function. -/
theorem Machine.Ok.opened (h : m.Ok l) (env : Env) : (m.opened env).Ok l := by
  refine ⟨h.distances, fun f x v hv => ?_, fun i x v hv => (h.objects i x v hv).grow Frames.grows_grow⟩
  refine Value.Ok.grow (h.frames f x v ?_) Frames.grows_grow
  rwa [Machine.opened, Frames.bindings_grow] at hv

/-! ## Operators

An operator looks no variable up and makes no function. -/

namespace Eval.Keeps

variable {defines : Bool}

/-- What an operator computes from values that are whole is whole. -/
theorem of_computes {step : Eval Value} (h : step.Computes) (hm : m.Ok l) :
    Keeps defines l step m fun v n => v.Ok l n.frames := by
  rcases h with ⟨constant, rfl⟩ | ⟨line, fault, -, rfl⟩
  · exact pure hm (by cases constant <;> trivial)
  · exact fail hm

end Eval.Keeps

/-! ## Expressions

An expression can call a function, and what the call does is a hypothesis here; it is discharged by
induction on the bound. -/

/-- Calls leave every function its environment. -/
def Apply.Keeps (l : Ledger) (apply : Apply) : Prop :=
  ∀ (c : Callable) (arguments : List Value) (line : Nat) (m : Machine), m.Ok l →
    c.Ok l m.frames → (∀ v ∈ arguments, v.Ok l m.frames) → arguments.length = c.arity →
      Eval.Keeps false l (apply c arguments line) m fun v n => v.Ok l n.frames

section
variable {apply : Apply}

/-- A call keeps step, whether the value is a function, a class or neither. -/
theorem callValue_keeps (happly : apply.Keeps l) (hm : m.Ok l) {callee : Value} (hc : callee.Ok l m.frames)
    {arguments : List Value} (ha : ∀ v ∈ arguments, v.Ok l m.frames) (line : Nat) :
    Eval.Keeps false l (callValue apply callee arguments line) m fun v n => v.Ok l n.frames := by
  unfold callValue
  split
  next i c =>
    split
    next arity =>
      exact .entering hm fun _ =>
        happly c arguments line _ ⟨hm.distances, hm.frames, hm.objects⟩ hc ha arity
    next => exact .fail hm
  next => exact .fail hm

mutual

/-- **Expressions keep step**, by recursion on them. -/
theorem Expr.eval_keeps (happly : apply.Keeps l) : ∀ (e : Expr) {m : Machine}, m.Ok l →
    Eval.Keeps false l (e.eval apply) m fun v n => v.Ok l n.frames
  | .literal value, m, hm => .pure hm (by cases value <;> trivial)
  | .group inner, m, hm => Expr.eval_keeps happly inner hm
  | .unary operator operand, m, hm =>
      (Expr.eval_keeps happly operand hm).bind fun x _ hn _ _ => .of_computes (unaryResult_computes operator x) hn
  | .binary left operator right, m, hm =>
      (Expr.eval_keeps happly left hm).bind fun x _ hn _ _ =>
        (Expr.eval_keeps happly right hn).bind fun y _ hk _ _ =>
          .of_computes (binaryResult_computes x operator y) hk
  | .logical left operator right, m, hm => by
      refine (Expr.eval_keeps happly left hm).bind fun x n hn _ hx => ?_
      split
      next => exact .pure hn hx
      next => exact Expr.eval_keeps happly right hn
  | .read id name, m, hm => .readVariable hm id name
  | .assign id name value, m, hm =>
      (Expr.eval_keeps happly value hm).bind fun x n hn _ hx =>
        (Eval.Keeps.writeVariable hn id name hx).bind fun _ _ hk evolves _ =>
          .pure hk (hx.grow evolves.grows)
  | .call callee paren arguments, m, hm =>
      (Expr.eval_keeps happly callee hm).bind fun f n hn _ hf =>
        (Expr.evalAll_keeps happly arguments hn).bind fun xs k hk evolves hxs =>
          callValue_keeps happly hk (hf.grow evolves.grows) hxs paren.line
  | .get object name, m, hm => by
      refine (Expr.eval_keeps happly object hm).bind fun x n hn _ _ => ?_
      split
      next => exact .readField hn _ name
      next => exact .fail hn
  | .set object name value, m, hm => by
      refine (Expr.eval_keeps happly object hm).bind fun x n hn _ _ => ?_
      split
      next =>
        refine (Expr.eval_keeps happly value hn).bind fun y k hk _ hy => ?_
        exact (Eval.Keeps.writeField hk _ name hy).bind fun _ _ hj evolves _ =>
          .pure hj (hy.grow evolves.grows)
      next => exact .fail hn

theorem Expr.evalAll_keeps (happly : apply.Keeps l) : ∀ (es : List Expr) {m : Machine}, m.Ok l →
    Eval.Keeps false l (Expr.evalAll apply es) m fun vs n => ∀ v ∈ vs, v.Ok l n.frames
  | [], m, hm => .pure hm (by simp)
  | e :: es, m, hm =>
      (Expr.eval_keeps happly e hm).bind fun x _ hn _ hx =>
        (Expr.evalAll_keeps happly es hn).bind fun _ _ hk evolves hxs =>
          .pure hk (List.forall_mem_cons.2 ⟨hx.grow evolves.grows, hxs⟩)

end

theorem Expr.evalOption_keeps (happly : apply.Keeps l) (e : Option Expr) (hm : m.Ok l) :
    Eval.Keeps false l (Expr.evalOption apply e) m fun v n => v.Ok l n.frames := by
  cases e with
  | none => exact .pure hm trivial
  | some e => exact Expr.eval_keeps happly e hm

end

/-! ## Statements

A statement that declares a name leaves the scopes that the walk leaves behind it, and one that
fails or returns leaves the machine in order all the same. -/

/-- What a statement leaves behind: if the next one is executed, it is in the environment of the
scopes after the statement. -/
def Flow.Leaves (l : Ledger) (after : Scopes) : Flow → Machine → Prop
  | .normal, n => n.Owns after
  | .returned v _, n => v.Ok l n.frames

/-- A step that defines nothing, before others. -/
theorem Eval.Keeps.thenOwns {α : Type} {step : Eval α} {Q : α → Machine → Prop}
    (h : Eval.Keeps false l step m Q) (ho : m.Owns scopes) :
    Eval.Keeps true l step m fun a n => Q a n ∧ n.Owns scopes :=
  (h.mono fun _ _ _ evolves hq => ⟨hq, ho.evolve evolves⟩).weaken

/-- A loop keeps step, as its body leaves the environment as it found it. -/
theorem repeatWhile_keeps {condition : Eval Value} {body : Eval Flow} {Q : Value → Machine → Prop}
    (hc : ∀ {m : Machine}, m.Ok l → Eval.Keeps false l condition m Q)
    (hb : ∀ {m : Machine}, m.Ok l → m.Owns scopes →
      Eval.Keeps true l body m (Flow.Leaves l scopes)) (rounds : Nat) {m : Machine}
    (hm : m.Ok l) (ho : m.Owns scopes) :
    Eval.Keeps true l (repeatWhile condition body rounds) m (Flow.Leaves l scopes) := by
  induction rounds generalizing m with
  | zero => exact .throw hm
  | succ rounds ih =>
      refine ((hc hm).thenOwns ho).bind fun x n hn _ h => ?_
      split
      next =>
        refine (hb hn h.2).bind fun flow k hk _ hflow => ?_
        cases flow with
        | normal => exact ih hk hflow
        | returned v line => exact .pure hk hflow
      next => exact .pure hn h.2

section
variable {apply : Apply} {rounds : Nat}

mutual

/-- **Statements keep step** with the walk over them, by recursion on them. -/
theorem Stmt.exec_keeps (happly : apply.Keeps l) : ∀ (s : Stmt) {scopes after : Scopes} {m : Machine},
    s.Resolved l scopes after → m.Ok l → m.Owns scopes →
      Eval.Keeps true l (s.exec apply rounds) m (Flow.Leaves l after)
  | .expression e, scopes, after, m, hs, hm, ho => by
      obtain ⟨-, rfl⟩ := hs
      exact ((Expr.eval_keeps happly e hm).thenOwns ho).bind fun _ _ hn _ h => .pure hn h.2
  | .print e, scopes, after, m, hs, hm, ho => by
      obtain ⟨-, rfl⟩ := hs
      refine ((Expr.eval_keeps happly e hm).thenOwns ho).bind fun x n hn _ h => ?_
      exact ((Eval.Keeps.printLine hn x.display).thenOwns h.2).bind fun _ _ hk _ h => .pure hk h.2
  | .var name initializer, scopes, after, m, hs, hm, ho => by
      obtain ⟨declared, hd, -, rfl⟩ := hs
      have hn : scopes.introduce name = .ok (declared.define name) := by
        simp only [Scopes.introduce, hd]
        rfl
      refine ((Expr.evalOption_keeps happly initializer hm).thenOwns ho).bind
        fun x n hk _ h => ?_
      exact (Eval.Keeps.define hk h.2 hn h.1).bind fun _ _ hj _ howns => .pure hj howns
  | .block body, scopes, after, m, hs, hm, ho => by
      obtain ⟨⟨inner, hbody⟩, rfl⟩ := hs
      have howns : (m.opened m.env).Owns after.openBlock :=
        ho.covers.opened ho.settled _
      have h := (Stmt.execAll_keeps happly body hbody (hm.opened m.env) howns).mono
        (R := fun flow n => ∀ v line, flow = .returned v line → v.Ok l n.frames)
        fun flow n _ _ hflow v line hreturned => by
          subst hreturned
          exact hflow
      have closed : Eval.Keeps true l (Eval.inScope m.env (Stmt.execAll apply rounds body)) m
          fun flow n => (∀ v line, flow = .returned v line → v.Ok l n.frames) ∧ n.Owns after :=
        (Eval.Keeps.inScope h).thenOwns ho
      refine closed.mono fun flow n _ _ hflow => ?_
      cases flow with
      | normal => exact hflow.2
      | returned v line => exact hflow.1 v line rfl
  | .branch condition yes none, scopes, after, m, hs, hm, ho => by
      obtain ⟨-, hyes, rfl⟩ := hs
      refine ((Expr.eval_keeps happly condition hm).thenOwns ho).bind fun x n hn _ h => ?_
      split
      next => exact Stmt.exec_keeps happly yes hyes hn h.2
      next => exact .pure hn h.2
  | .branch condition yes (some no), scopes, after, m, hs, hm, ho => by
      obtain ⟨-, hyes, hno, rfl⟩ := hs
      refine ((Expr.eval_keeps happly condition hm).thenOwns ho).bind fun x n hn _ h => ?_
      split
      next => exact Stmt.exec_keeps happly yes hyes hn h.2
      next => exact Stmt.exec_keeps happly no hno hn h.2
  | .loop condition body, scopes, after, m, hs, hm, ho => by
      obtain ⟨-, hbody, rfl⟩ := hs
      exact repeatWhile_keeps (fun hm => Expr.eval_keeps happly condition hm)
        (fun hm ho => Stmt.exec_keeps happly body hbody hm ho) rounds hm ho
  | .function name parameters body, scopes, after, m, hs, hm, ho => by
      obtain ⟨hname, opened, inner, hparameters, hbody⟩ := hs
      have hfunction {n : Machine} (henv : n.env = m.env) (howns : n.Owns after) :
          (Callable.function name parameters body m.env).Ok l n.frames :=
        ⟨after, opened, inner, henv ▸ howns.covers, howns.settled, hparameters, hbody⟩
      exact (Eval.Keeps.defineCallable hm ho hname hfunction).bind
        fun _ _ hn _ howns => .pure hn howns
  | .ret keyword value, scopes, after, m, hs, hm, ho => by
      obtain ⟨-, -, rfl⟩ := hs
      exact (Expr.evalOption_keeps happly value hm).weaken.bind fun _ _ hn _ hv => .pure hn hv
  | .cls name, scopes, after, m, hs, hm, ho =>
      (Eval.Keeps.defineCallable hm ho hs (c := .cls name.lexeme) fun _ _ => trivial).bind
        fun _ _ hn _ howns => .pure hn howns

theorem Stmt.execAll_keeps (happly : apply.Keeps l) : ∀ (ss : List Stmt) {scopes after : Scopes} {m : Machine},
    Stmt.ResolvedAll l scopes ss after → m.Ok l → m.Owns scopes →
      Eval.Keeps true l (Stmt.execAll apply rounds ss) m (Flow.Leaves l after)
  | [], scopes, after, m, hs, hm, ho => by
      obtain rfl := hs
      exact .pure hm ho
  | s :: ss, scopes, after, m, hs, hm, ho => by
      obtain ⟨between, hs, hss⟩ := hs
      refine (Stmt.exec_keeps happly s hs hm ho).bind fun flow n hn _ hflow => ?_
      cases flow with
      | normal => exact Stmt.execAll_keeps happly ss hss hn hflow
      | returned v line => exact .pure hn hflow

end

end

/-! ## Calls

A call opens a frame for the parameters on the chain that the function has kept. -/

/-- The parameters of a function are bound in the scope that they were declared in. -/
theorem bindParameters_keeps {parameters : List Token} {arguments : List Value}
    (length : arguments.length = parameters.length)
    (h : parameters.foldlM Scopes.introduce scopes = .ok after) (hm : m.Ok l) (ho : m.Owns scopes)
    (ha : ∀ v ∈ arguments, v.Ok l m.frames) :
    Eval.Keeps true l (bindParameters parameters arguments) m fun _ n => n.Owns after := by
  induction parameters generalizing arguments scopes m with
  | nil =>
      obtain rfl := Scopes.introduceAll_nil_eq_ok.1 h
      obtain rfl : arguments = [] := List.length_eq_zero_iff.1 length
      exact .pure hm ho
  | cons p ps ih =>
      obtain ⟨v, vs, rfl⟩ := List.exists_cons_of_length_eq_add_one length
      obtain ⟨next, hnext, h⟩ := Scopes.introduceAll_cons_eq_ok.1 h
      obtain ⟨hv, hvs⟩ := List.forall_mem_cons.1 ha
      refine (Eval.Keeps.define hm ho hnext hv).bind fun _ n hn evolves howns => ?_
      exact ih (by simpa using length) h hn howns fun w hw => (hvs w hw).grow evolves.grows

/-- **Calls keep step**, with any bound: by induction on it. -/
theorem Callable.apply_keeps (bound : Nat) : Apply.Keeps l (Callable.apply bound) := by
  induction bound with
  | zero => exact fun c arguments line m hm _ _ _ => .throw hm
  | succ bound ih =>
      intro c arguments line m hm hc ha arity
      cases c with
      | host f =>
          cases f with
          | clock => exact .readClock hm
          | lastArgument _ =>
              refine .pure hm ?_
              cases hlast : arguments.getLast? with
              | none => trivial
              | some v => exact ha v (List.mem_of_getLast? hlast)
          | failing _ message => exact .fail hm
      | cls name => exact .newObject hm name
      | function name parameters body closure =>
          obtain ⟨scopes, opened, inner, covers, settled, hparameters, hbody⟩ := hc
          have grown : ∀ v ∈ arguments, v.Ok l (m.opened closure).frames := fun v hv =>
            (ha v hv).grow Frames.grows_grow
          refine .inScope ((bindParameters_keeps arity hparameters (hm.opened closure)
            (covers.opened settled true) grown).bind fun _ n hn _ howns => ?_)
          refine (Stmt.execAll_keeps ih body hbody hn howns).bind fun flow k hk _ hflow => ?_
          refine .pure hk ?_
          cases flow with
          | normal => trivial
          | returned v line => exact hflow

/-! ## Programs

A program is a list of statements, run in the environment of the globals. -/

theorem executeProgram_keeps (bound : Nat) (program : List Stmt)
    (h : Stmt.ResolvedAll l scopes program after) (hm : m.Ok l) (ho : m.Owns scopes) :
    Eval.Keeps true l (executeProgram bound program) m fun _ n => n.Owns after := by
  induction program generalizing scopes m with
  | nil =>
      obtain rfl := h
      exact .pure hm ho
  | cons s ss ih =>
      obtain ⟨between, hs, hss⟩ := h
      refine (Stmt.exec_keeps (Callable.apply_keeps bound) s hs hm ho).bind
        fun flow n hn _ hflow => ?_
      cases flow with
      | normal => exact ih hss hn hflow
      | returned v line => exact .fail hn

/-- **Programs keep step**, and leave a machine on which the next one can be run. -/
theorem interpret_keeps (bound : Nat) {program : List Stmt}
    (h : Stmt.ResolvedAll l scopes program after) (hm : m.Ok l) (ho : m.Owns scopes) :
    Eval.Keeps true l (interpret bound program) m fun _ _ => True :=
  (executeProgram_keeps bound program h hm ho).bind fun _ _ hn _ _ => .flush hn

end Lox
