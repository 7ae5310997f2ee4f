import Lox.Proofs.Resolution.Walk
import Lox.Proofs.Session.Calls

/-!
# Where a return ends

A return is allowed where the innermost scope lies inside a function, and a scope inherits that from
the one around it unless it is a function's own.  So in a program that is accepted no statement at
the top level ends with a return, and a program fails for one only if it was not resolved.  Inside a
call a return leaves every block, branch and loop around it, and with them the call, which has its
value; of the body nothing is executed after it.

* `Eval.FallsThrough`, `Stmt.falls_through` — the flag of the scopes against the ways a statement
  can end.
* `Eval.Contained`, `Eval.contained` — the only steps that fail for a return are programs.
* `Moment.Returns` — something that is executed ends with a return.
* `Moment.Comes.returns`, `Moment.Returns.comes` — a return in a body is one of the whole body, and
  comes from a return statement in it.
* `returns_stay_in_calls` — a return ends one call and nothing else.
-/

namespace Lox

open Resolution Eval

/-! ## Statements outside a function

A scope knows whether it lies inside a function.  Declarations do not change that, so the walk over
a list of statements passes it on, and a `return` is let through only where it is so. -/

namespace Resolution.Scopes

variable {scopes after : Scopes} {name : Token}

/-- To make a name readable does not move a scope into a function. -/
theorem inFunction_define : (scopes.define name).inFunction = scopes.inFunction := by
  cases scopes <;> rfl

theorem inFunction_declare (h : scopes.declare name = .ok after) :
    after.inFunction = scopes.inFunction := by
  cases scopes with
  | nil => cases h; rfl
  | cons s outer =>
      simp only [declare] at h
      split at h
      · cases h
      · cases h; rfl

theorem inFunction_introduce (h : scopes.introduce name = .ok after) :
    after.inFunction = scopes.inFunction := by
  obtain ⟨declared, hd, rfl⟩ := introduce_eq_ok_iff.1 h
  rw [inFunction_define, inFunction_declare hd]

end Resolution.Scopes

/-- A step never ends with a return. -/
def Eval.FallsThrough (step : Eval Flow) : Prop :=
  ∀ m v line n, step m ≠ .ok (.returned v line) n

namespace Eval.FallsThrough

variable {α : Type} {step : Eval Flow}

theorem normal : FallsThrough (pure .normal) := by
  intro m v line n h
  cases (pure_eq_ok.1 h).1

/-- A sequence falls through if its last part does, whatever the first is. -/
theorem bind {x : Eval α} {f : α → Eval Flow} (hf : ∀ a, FallsThrough (f a)) :
    FallsThrough (x >>= f) := by
  intro m v line n h
  obtain ⟨a, k, -, h⟩ := bind_eq_ok.1 h
  exact hf a k v line n h

/-- What comes after a step that falls through is executed. -/
theorem andThen {f : Flow → Eval Flow} (h : FallsThrough step) (hf : FallsThrough (f .normal)) :
    FallsThrough (step >>= f) := by
  intro m v line n hm
  obtain ⟨flow, k, hs, hm⟩ := bind_eq_ok.1 hm
  cases flow with
  | normal => exact hf k v line n hm
  | returned w l => exact h m w l k hs

theorem ite {p : Prop} [Decidable p] {yes no : Eval Flow} (hy : FallsThrough yes)
    (hn : FallsThrough no) : FallsThrough (if p then yes else no) := by
  split
  · exact hy
  · exact hn

theorem inScope (h : FallsThrough step) (env : Env) : FallsThrough (inScope env step) := by
  intro m v line n hm
  rw [inScope_eq] at hm
  cases hs : step (m.opened env) with
  | ok flow k =>
      rw [hs] at hm
      cases hm
      exact h _ v line k hs
  | error stop k =>
      rw [hs] at hm
      cases hm

theorem repeatWhile {condition : Eval Value} (h : FallsThrough step) (rounds : Nat) :
    FallsThrough (repeatWhile condition step rounds) := by
  induction rounds with
  | zero =>
      intro m v line n h
      cases h
  | succ rounds ih => exact bind fun v => ite (andThen h ih) normal

end Eval.FallsThrough

section
variable {apply : Apply} {rounds : Nat}

mutual

/-- Outside a function a statement that is accepted never ends with a return, and what follows it is
outside a function as well. -/
theorem Stmt.falls_through : ∀ (s : Stmt) {scopes after : Scopes} {entries : List Entry},
    s.resolve scopes = .ok (after, entries) → scopes.inFunction = false →
      after.inFunction = false ∧ FallsThrough (s.exec apply rounds)
  | .expression _, scopes, after, entries, h, outside => by
      rw [(Stmt.resolve_expression_eq_ok.1 h).2]
      exact ⟨outside, .bind fun v => .normal⟩
  | .print _, scopes, after, entries, h, outside => by
      rw [(Stmt.resolve_print_eq_ok.1 h).2]
      exact ⟨outside, .bind fun v => .bind fun _ => .normal⟩
  | .var name initializer, scopes, after, entries, h, outside => by
      obtain ⟨declared, hd, -, rfl⟩ := Stmt.resolve_var_eq_ok.1 h
      refine ⟨?_, .bind fun x => .bind fun _ => .normal⟩
      rw [Scopes.inFunction_define, Scopes.inFunction_declare hd, outside]
  | .block body, scopes, after, entries, h, outside => by
      obtain ⟨⟨inner, hb⟩, rfl⟩ := Stmt.resolve_block_eq_ok.1 h
      have fallen := (Stmt.falls_through_all body hb outside).2
      exact ⟨outside, .bind fun m => fallen.inScope m.env⟩
  | .branch condition yes none, scopes, after, entries, h, outside => by
      obtain ⟨_, _, -, hy, -⟩ := Stmt.resolve_ifOnly_eq_ok.1 h
      obtain ⟨outside, fallen⟩ := Stmt.falls_through yes hy outside
      exact ⟨outside, .bind fun v => .ite fallen .normal⟩
  | .branch condition yes (some no), scopes, after, entries, h, outside => by
      obtain ⟨between, _, _, _, -, hy, hn, -⟩ := Stmt.resolve_ifElse_eq_ok.1 h
      obtain ⟨between, fallen⟩ := Stmt.falls_through yes hy outside
      obtain ⟨outside, fallen'⟩ := Stmt.falls_through no hn between
      exact ⟨outside, .bind fun v => .ite fallen fallen'⟩
  | .loop condition body, scopes, after, entries, h, outside => by
      obtain ⟨_, _, -, hb, -⟩ := Stmt.resolve_loop_eq_ok.1 h
      obtain ⟨outside, fallen⟩ := Stmt.falls_through body hb outside
      exact ⟨outside, fallen.repeatWhile rounds⟩
  | .function name parameters body, scopes, after, entries, h, outside => by
      refine ⟨?_, .bind fun m => .bind fun _ => .normal⟩
      rw [Scopes.inFunction_introduce (Stmt.resolve_function_eq_ok.1 h).1, outside]
  | .ret keyword value, scopes, after, entries, h, outside => by
      obtain ⟨inside, -, -⟩ := Stmt.resolve_ret_eq_ok.1 h
      exact absurd inside (by simp [outside])
  | .cls name, scopes, after, entries, h, outside => by
      refine ⟨?_, .bind fun _ => .normal⟩
      rw [Scopes.inFunction_introduce (Stmt.resolve_cls_eq_ok.1 h).1, outside]

/-- Statements outside a function leave scopes outside a function, and none ends with a return. -/
theorem Stmt.falls_through_all : ∀ (ss : List Stmt) {scopes after : Scopes}
    {entries : List Entry}, Stmt.resolveAll scopes ss = .ok (after, entries) →
      scopes.inFunction = false →
      after.inFunction = false ∧ FallsThrough (Stmt.execAll apply rounds ss)
  | [], scopes, after, entries, h, outside => by
      rw [(Stmt.resolveAll_nil_eq_ok.1 h).1]
      exact ⟨outside, .normal⟩
  | s :: ss, scopes, after, entries, h, outside => by
      obtain ⟨between, _, _, hs, hss, -⟩ := Stmt.resolveAll_cons_eq_ok.1 h
      obtain ⟨between, fallen⟩ := Stmt.falls_through s hs outside
      obtain ⟨outside, others⟩ := Stmt.falls_through_all ss hss between
      exact ⟨outside, fallen.andThen others⟩

end

end

/-- No statement at the top level of an accepted program ends with a return. -/
theorem FallsThrough.of_resolve {program : List Stmt} {entries : List Entry}
    (h : resolve program = .ok entries) {s : Stmt} (hs : s ∈ program) (bound : Nat) :
    FallsThrough (execute bound s) := by
  obtain ⟨after, walked⟩ := resolve_eq_ok.1 h
  have outside : Scopes.inFunction [] = false := rfl
  generalize hscopes : ([] : Scopes) = scopes at walked outside
  clear hscopes h
  induction program generalizing scopes entries with
  | nil => cases hs
  | cons t ts ih =>
      obtain ⟨between, first, others, ht, hts, -⟩ := Stmt.resolveAll_cons_eq_ok.1 walked
      obtain ⟨outside', fallen⟩ := Stmt.falls_through t ht outside
      rcases List.mem_cons.1 hs with rfl | hs
      · exact fallen
      · exact ih hs between hts outside'

/-! ## Failures for a return

A program that ends with a return fails for it.  No other step has that fault, and it is checked for
once, where the statements of a program are done. -/

/-- A step does not fail for a return outside a function. -/
def Eval.Contained {α : Type} (step : Eval α) : Prop :=
  Moves (fun _ _ => True) (fun stop => ∀ line, stop ≠ failure line .returnOutsideFunction) step

/-- **No expression, statement or call fails for a return.** -/
theorem Eval.contained : Closed Contained where
  toPasses := Law.passes {
    trans := fun _ _ => trivial
    unseen := fun _ _ _ _ => trivial
    rebind := fun _ _ => trivial
    finish := fun _ => trivial
    fails := fun _ _ other _ same => other (by cases same; rfl)
    output := nofun
    exhausted := nofun }
  define _ _ _ := trivial
  defineCallable _ _ _ := trivial
  inScope h := Moves.inScope (fun _ => trivial) h

/-- A program whose statements fall through does not fail for a return. -/
theorem interpret_contained {bound : Nat} {program : List Stmt}
    (h : ∀ s ∈ program, FallsThrough (execute bound s)) : Contained (interpret bound program) := by
  refine contained.bind ?_ fun _ => contained.flush
  induction program with
  | nil => exact contained.pure ()
  | cons s ss ih =>
      intro m
      cases hs : execute bound s m with
      | ok flow k =>
          rw [executeProgram, bind_ok hs]
          cases flow with
          | normal => exact ih (fun t ht => h t (List.mem_cons_of_mem s ht)) k
          | returned v line => exact (h s List.mem_cons_self m v line k hs).elim
      | error stop k =>
          rw [executeProgram, bind_error hs]
          exact (contained.execute bound s).of_error hs

/-- Beside a return outside a function, only a host function can have these words. -/
theorem RuntimeFault.message_eq_iff (fault : RuntimeFault) :
    fault.message = "Cannot return from top-level code." ↔
      fault = .returnOutsideFunction ∨
        fault = .hostFailure "Cannot return from top-level code." := by
  constructor
  · intro h
    -- Words with a name in them begin differently, the others are compared as they are.
    have begins {first rest : String}
        (h : (first ++ rest).toList <+: "Cannot return from top-level code.".toList) :
        first.toList <+: "Cannot return from top-level code.".toList :=
      (List.prefix_append _ _).trans (String.toList_append ▸ h)
    have all : fault.message.toList <+: "Cannot return from top-level code.".toList :=
      h ▸ List.prefix_refl _
    cases fault with
    | returnOutsideFunction => exact .inl rfl
    | hostFailure message => exact .inr (congrArg RuntimeFault.hostFailure h)
    | undefinedVariable | undefinedProperty | invalidUnaryOperator | invalidBinaryOperator =>
        exact absurd (begins (begins all)) (by decide)
    | wrongArgumentCount => exact absurd (begins (begins (begins (begins all)))) (by decide)
    | _ => exact absurd h (by decide)
  · intro h
    rcases h with h | h
    · rw [h]; rfl
    · rw [h]; rfl

/-! ## What a return leaves

A moment is about to return if its task, evaluated to its end, ends with a return.  What such a
moment comes to next is again about to return or is a part that ends normally; of what stands behind
it nothing is evaluated. -/

/-- What is still to be executed of something once a part of it has been. -/
inductive Task.Rest : Task → Task → Task → Prop
  | statements {s ss} : Rest (.statements (s :: ss)) (.statement s) (.statements ss)
  | loop {e body rounds} : Rest (.loop e body (rounds + 1)) (.statement body) (.loop e body rounds)

namespace Moment

/-- Something that is executed ends with a return, and leaves the machine `k`. -/
def Returns (p : Moment) (v : Value) (line : Nat) (k : Machine) : Prop :=
  match p.task with
  | .statement s => execute p.bound s p.machine = .ok (.returned v line) k
  | .statements ss =>
    Stmt.execAll (Callable.apply p.bound) p.bound ss p.machine = .ok (.returned v line) k
  | .loop e body rounds =>
    repeatWhile (evaluate p.bound e) (execute p.bound body) rounds p.machine =
      .ok (.returned v line) k
  | _ => False

variable {p q r : Moment} {v : Value} {line : Nat} {k : Machine}

/-- A statement that returns has restored the environment it was entered in. -/
theorem Returns.env (h : p.Returns v line k) : k.env = p.machine.env := by
  obtain ⟨b, task, m⟩ := p
  have executed (s : Stmt) : Orderly (s.exec (Callable.apply b) b) := orderly.execute b s
  cases task with
  | statement s => exact ((executed s).of_ok h).env
  | statements ss => exact ((orderly.execAll (orderly.apply b) ss).of_ok h).env
  | loop e body rounds =>
      exact ((orderly.repeatWhile (orderly.evaluate b e) (executed body) rounds).of_ok h).env
  | _ => exact h.elim

/-- **A step of a return**: what ends with one in something that is executed ends all of it. -/
theorem Next.returns (next : p.Next q) (inside : ¬p.IsCall) (h : q.Returns v line k) :
    p.Returns v line (k.within p.machine.env) := by
  have left := h.env
  have value {b e m w n} (he : Expr.eval (Callable.apply b) e m = .ok w n) : n.env = m.env :=
    ((evaluate_restores b e).of_ok he).env
  have flow {b s m f n} (hs : Stmt.exec (Callable.apply b) b s m = .ok f n) : n.env = m.env :=
    ((execute_restores b s).of_ok hs).env
  have unmoved {m n : Machine} (same : n.env = m.env) : n.within m.env = n := same ▸ rfl
  cases next with
  | @block b body m =>
      show inScope m.env (Stmt.execAll (Callable.apply b) b body) m = _
      rw [inScope_eq, show Stmt.execAll _ _ _ _ = _ from h]
  | @yes b e yes no m w n he hv =>
      rw [unmoved (left.trans (value he))]
      cases no with
      | none => exact (bind_ok he).trans ((if_pos hv).symm ▸ h)
      | some no => exact (bind_ok he).trans ((if_pos hv).symm ▸ h)
  | @no b e yes no m w n he hv =>
      rw [unmoved (left.trans (value he))]
      have untrue : ¬w.isTruthy = true := by simp [hv]
      exact (bind_ok he).trans ((if_neg untrue).symm ▸ h)
  | loop =>
      rw [unmoved left]
      exact h
  | @loopBody b e body rounds m w n he hv =>
      rw [unmoved (left.trans (value he))]
      refine (bind_ok he).trans ?_
      rw [if_pos hv]
      exact bind_ok h
  | @loopAgain b e body rounds m w n j he hv hbody =>
      rw [unmoved (left.trans ((flow hbody).trans (value he)))]
      refine (bind_ok he).trans ?_
      rw [if_pos hv]
      exact (bind_ok hbody).trans h
  | firstStatement =>
      rw [unmoved left]
      exact bind_ok h
  | otherStatements hs =>
      rw [unmoved (left.trans (flow hs))]
      exact (bind_ok hs).trans h
  | body arity room hn => exact absurd ⟨_, _, _, rfl⟩ inside
  | _ => exact h.elim

/-- **A run up to a return**: what ends with one, however deep inside something that is executed,
ends all of it, unless a call is in between. -/
theorem Comes.returns (comes : p.Comes [] q) (h : q.Returns v line k) :
    p.Returns v line (k.within p.machine.env) := by
  generalize hcalls : ([] : List Moment) = calls at comes
  induction comes generalizing k with
  | here =>
      have same := h.env
      rwa [← same]
  | inside comes next inside ih =>
      have outer := ih (next.returns inside h) hcalls
      exact outer
  | entered => cases hcalls

/-- A call whose body ends with a return has its value; the environment and the count of the calls
are those before it. -/
theorem Next.call_returns {b i : Nat} {name : Token} {parameters : List Token} {body : List Stmt}
    {closure : Env} {arguments : List Value} {callLine : Nat} {m n : Machine}
    (next : Next ⟨b + 1, .call (.callable i (.function name parameters body closure)) arguments
      callLine, m⟩ ⟨b, .statements body, n⟩) (h : Returns ⟨b, .statements body, n⟩ v line k) :
    callValue (Callable.apply (b + 1)) (.callable i (.function name parameters body closure))
      arguments callLine m = .ok v ((k.within m.env).withDepth m.depth) := by
  cases next with
  | body arity room hn =>
      have entered {step : Eval Value} : entering callLine step m = _ := entering_eq room
      have run : Callable.apply (b + 1) (.function name parameters body closure) arguments callLine
          (m.withDepth (m.depth + 1)) = .ok v (k.within m.env) := by
        have inner : (do
            bindParameters parameters arguments
            return (← Stmt.execAll (Callable.apply b) b body).result : Eval Value)
              ((m.withDepth (m.depth + 1)).opened closure) = .ok v k :=
          (bind_ok hn).trans (bind_ok h)
        rw [Callable.apply, inScope_eq, inner]
        rfl
      have count : (k.within m.env).depth - 1 = m.depth := by
        have level := (Callable.apply_restores _ _ _ _).of_ok run
        rw [level.depth]
        exact Nat.add_sub_cancel m.depth 1
      have takes : arguments.length = (Callable.function name parameters body closure).arity :=
        arity
      rw [callValue, if_pos takes, entered, run]
      simp only [count]

/-- Nothing is executed after a return. -/
theorem Next.no_rest (next : p.Next q) (h : q.Returns v line k) (next' : p.Next r) :
    ¬Task.Rest p.task q.task r.task := by
  intro rest
  cases next with
  | firstStatement =>
      cases next' with
      | otherStatements hs => cases hs.symm.trans h
      | firstStatement => cases rest
  | loopBody he hv =>
      cases next' with
      | loopAgain he' hv' hbody =>
          cases he.symm.trans he'
          cases hbody.symm.trans h
      | _ => cases rest
  | _ => cases rest

/-! ## Where a return comes from

By recursion on the statement that is left, down to the `return` that was executed. -/

/-- A step that enters no call leaves the list of calls in progress as it is. -/
theorem Next.comes {calls : List Moment} (next : p.Next q) (inside : ¬p.IsCall)
    (h : q.Comes calls r) : p.Comes calls r := by
  induction h with
  | here => exact .inside .here next inside
  | inside _ next' other ih => exact .inside ih next' other
  | entered _ next' call ih => exact .entered ih next' call

/-- Something that is executed comes to a return statement, not in a call, whose value is `v`. -/
def MeetsReturn (p : Moment) (v : Value) (line : Nat) : Prop :=
  ∃ b keyword value m j, p.Comes [] ⟨b, .statement (.ret keyword value), m⟩ ∧
    keyword.line = line ∧ Expr.evalOption (Callable.apply b) value m = .ok v j

/-- Nor does it matter for the `return` that is come to. -/
theorem Next.meetsReturn (next : p.Next q) (inside : ¬p.IsCall) (h : q.MeetsReturn v line) :
    p.MeetsReturn v line := by
  obtain ⟨b, keyword, value, m, j, comes, rest⟩ := h
  exact ⟨b, keyword, value, m, j, next.comes inside comes, rest⟩

end Moment

open Moment

section
variable {b : Nat} {v : Value} {line : Nat}

/-- A loop that ends with a return has met it in a round. -/
theorem meetsReturn_loop {condition : Expr} {body : Stmt}
    (hbody : ∀ {m k}, execute b body m = .ok (.returned v line) k →
      MeetsReturn ⟨b, .statement body, m⟩ v line) (rounds : Nat) {m k : Machine}
    (h : repeatWhile (evaluate b condition) (execute b body) rounds m = .ok (.returned v line) k) :
    MeetsReturn ⟨b, .loop condition body rounds, m⟩ v line := by
  induction rounds generalizing m with
  | zero => cases h
  | succ rounds ih =>
      obtain ⟨w, n, he, h⟩ := bind_eq_ok.1 h
      split at h
      next hv =>
        obtain ⟨flow, j, hflow, h⟩ := bind_eq_ok.1 h
        cases flow with
        | normal => exact (Next.loopAgain he hv hflow).meetsReturn (by simp [IsCall]) (ih h)
        | returned w' line' =>
            cases h
            exact (Next.loopBody he hv).meetsReturn (by simp [IsCall]) (hbody hflow)
      next => cases h

mutual

/-- A statement that ends with a return has met it. -/
theorem Stmt.meetsReturn : ∀ (s : Stmt) {m k : Machine},
    execute b s m = .ok (.returned v line) k → MeetsReturn ⟨b, .statement s, m⟩ v line
  | .expression e, m, k, h => by
      obtain ⟨_, _, -, h⟩ := bind_eq_ok.1 h
      cases h
  | .print e, m, k, h => by
      obtain ⟨_, _, -, h⟩ := bind_eq_ok.1 h
      obtain ⟨_, _, -, h⟩ := bind_eq_ok.1 h
      cases h
  | .var name initializer, m, k, h => by
      obtain ⟨_, _, -, h⟩ := bind_eq_ok.1 h
      obtain ⟨_, _, -, h⟩ := bind_eq_ok.1 h
      cases h
  | .block body, m, k, h => by
      have h : inScope m.env (Stmt.execAll (Callable.apply b) b body) m = _ := h
      rw [inScope_eq] at h
      cases hb : Stmt.execAll (Callable.apply b) b body (m.opened m.env) with
      | ok flow n =>
          rw [hb] at h
          cases h
          exact Next.block.meetsReturn (by simp [IsCall]) (Stmt.meetsReturnAll body hb)
      | error stop n =>
          rw [hb] at h
          cases h
  | .branch condition yes none, m, k, h => by
      obtain ⟨w, n, he, h⟩ := bind_eq_ok.1 h
      split at h
      next hv => exact (Next.yes he hv).meetsReturn (by simp [IsCall]) (Stmt.meetsReturn yes h)
      next => cases h
  | .branch condition yes (some no), m, k, h => by
      obtain ⟨w, n, he, h⟩ := bind_eq_ok.1 h
      split at h
      next hv => exact (Next.yes he hv).meetsReturn (by simp [IsCall]) (Stmt.meetsReturn yes h)
      next hv =>
        exact (Next.no he (by simpa using hv)).meetsReturn (by simp [IsCall])
          (Stmt.meetsReturn no h)
  | .loop condition body, m, k, h =>
      Next.loop.meetsReturn (by simp [IsCall]) (meetsReturn_loop (Stmt.meetsReturn body) b h)
  | .function name parameters body, m, k, h => by
      obtain ⟨_, _, -, h⟩ := bind_eq_ok.1 h
      obtain ⟨_, _, -, h⟩ := bind_eq_ok.1 h
      cases h
  | .ret keyword value, m, k, h => by
      obtain ⟨w, n, hvalue, h⟩ := bind_eq_ok.1 h
      cases h
      exact ⟨b, keyword, value, m, _, .here, rfl, hvalue⟩
  | .cls name, m, k, h => by
      obtain ⟨_, _, -, h⟩ := bind_eq_ok.1 h
      cases h

theorem Stmt.meetsReturnAll : ∀ (ss : List Stmt) {m k : Machine},
    Stmt.execAll (Callable.apply b) b ss m = .ok (.returned v line) k →
      MeetsReturn ⟨b, .statements ss, m⟩ v line
  | [], m, k, h => by cases h
  | s :: ss, m, k, h => by
      obtain ⟨flow, n, hflow, h⟩ := bind_eq_ok.1 h
      cases flow with
      | normal =>
          exact (Next.otherStatements hflow).meetsReturn (by simp [IsCall])
            (Stmt.meetsReturnAll ss h)
      | returned w line' =>
          cases h
          exact Next.firstStatement.meetsReturn (by simp [IsCall]) (Stmt.meetsReturn s hflow)

end

end

/-- **A return ends one call and nothing else.**  In a program that was resolved no statement at the
top level ends with a return, on any machine, so running it does not fail for one; what fails with
these words is a host function that has them for its own.  Once the body of a function is run in a
call, all that ends with a return in the body, however deep, ends the call, which has the value of
the return, on the machine that the return left; and if the body ends with a return, then it came to
a return statement of its own.  What is left of the statements or the loop around a return is not
executed. -/
theorem returns_stay_in_calls :
    (∀ program entries, resolve program = .ok entries → ∀ bound m,
      (∀ s ∈ program, ∀ v line n, execute bound s m ≠ .ok (.returned v line) n) ∧
      ∀ line fault n, interpret bound program m = .error (.failed (.runtime line fault)) n →
        fault ≠ .returnOutsideFunction ∧
        (fault.message = "Cannot return from top-level code." →
          fault = .hostFailure "Cannot return from top-level code.")) ∧
    (∀ bound i name parameters body closure arguments line m n,
      Next ⟨bound + 1, .call (.callable i (.function name parameters body closure)) arguments line,
        m⟩ ⟨bound, .statements body, n⟩ →
      (∀ p v l k, Comes ⟨bound, .statements body, n⟩ [] p → p.Returns v l k →
        callValue (Callable.apply (bound + 1))
          (.callable i (.function name parameters body closure)) arguments line m =
            .ok v ((k.within m.env).withDepth m.depth)) ∧
      ∀ v l k, Returns ⟨bound, .statements body, n⟩ v l k →
        MeetsReturn ⟨bound, .statements body, n⟩ v l) ∧
    ∀ p q r v l k, Next p q → q.Returns v l k → Next p r → ¬Task.Rest p.task q.task r.task := by
  refine ⟨fun program entries resolved bound m => ?_, ?_, ?_⟩
  · have fallen := fun s (hs : s ∈ program) => FallsThrough.of_resolve resolved hs bound
    refine ⟨fun s hs => fallen s hs m, fun line fault n failed => ?_⟩
    have other : fault ≠ .returnOutsideFunction := by
      rintro rfl
      exact ((interpret_contained fallen).of_error failed).2 line rfl
    exact ⟨other, fun words => ((fault.message_eq_iff).1 words).resolve_left other⟩
  · intro bound i name parameters body closure arguments line m n call
    refine ⟨fun p v l k comes h => ?_, fun v l k h => Stmt.meetsReturnAll body h⟩
    have value := call.call_returns (comes.returns h)
    exact value
  · intro p q r v l k next h next'
    exact next.no_rest h next'

/-- In `fun f() { while (true) { if (true) { return "a"; } print "b"; } print "c"; }` the return
ends the call, and nothing is printed. -/
theorem returns_stay_in_calls_from_loop :
    let f : Token := ⟨.identifier, "f", 1, ()⟩
    let keyword : Token := ⟨.keyword .return_, "return", 1, ()⟩
    let return_ : Stmt := .ret keyword (some (.literal (.string "a")))
    let round : Stmt := .block
      [.branch (.literal (.bool true)) (.block [return_]) none, .print (.literal (.string "b"))]
    let body : List Stmt := [.loop (.literal (.bool true)) round, .print (.literal (.string "c"))]
    let m := Machine.initial (fun _ => 0) {}
    let callee : Value := .callable 1 (.function f [] body Machine.globals)
    let start : Moment := ⟨2, .statements body, (m.withDepth 1).opened Machine.globals⟩
    (∀ s ∈ [Stmt.function f [] body], execute 3 s m ≠ .ok (.returned (.string "a") 1) m) ∧
      (∃ n, callValue (Callable.apply 3) callee [] 2 m = .ok (.string "a") n ∧ n.sink.text = "") ∧
      start.MeetsReturn (.string "a") 1 ∧
      ∀ r, start.Next r → ¬Task.Rest start.task (.statement (body.head (by simp))) r.task := by
  intro f keyword return_ round body m callee start
  obtain ⟨programs, calls, rests⟩ := returns_stay_in_calls
  have call : Next ⟨3, .call callee [] 2, m⟩ start := .body rfl (by decide) rfl
  obtain ⟨ends, meets⟩ := calls 2 _ _ _ _ _ _ _ _ _ call
  have comes : start.Comes [] ⟨2, .statement return_, _⟩ :=
    (((((((Comes.here.inside .firstStatement (by simp [IsCall])).inside .loop
      (by simp [IsCall])).inside (.loopBody rfl rfl) (by simp [IsCall])).inside .block
      (by simp [IsCall])).inside .firstStatement (by simp [IsCall])).inside (.yes rfl rfl)
      (by simp [IsCall])).inside .block (by simp [IsCall])).inside .firstStatement
      (by simp [IsCall])
  have value := ends _ (.string "a") 1 _ comes rfl
  refine ⟨fun s hs => (programs _ [] rfl 3 m).1 s hs _ _ _, ⟨_, value, rfl⟩, meets _ _ _ rfl, ?_⟩
  intro r next
  exact rests start _ r (.string "a") 1 _ .firstStatement rfl next

end Lox
