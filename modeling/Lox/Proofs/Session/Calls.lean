import Lox.Proofs.Evaluation.Course
import Lox.Proofs.Evaluation.Restores
import Lox.Proofs.Session.Reachable

/-!
# Calls in progress

The machine counts the calls in progress.  The count is right at every moment of every run, it
never exceeds its limit, and between two runs it is zero again and the environment that of the
globals, whatever the runs were of and however they ended.

That a count is restored is a fact about single steps, which was shown of every step on every
machine.  That it is right is a fact about the course of a run: along the way from the beginning of
a run to a moment in it, each call that is entered adds one, and nothing else does.  Together they
say that what is counted at a moment are the calls that have been entered and not left.

* `Moment.Comes` — what an evaluation comes to, with the calls that are in progress there.
* `Session.Used`, `Session.Starts` — what can be done with a session, and what that evaluates.
* `Session.Used.preserved` — what nothing that is done with a session changes.
* `every_exit_restores` — **no exit leaves a call or a scope open**, and the count is right.
-/

namespace Lox

open Eval

/-! ## The course of a run, with the calls on the way

A run comes from a moment to its parts.  The moments that are calls, and have not ended, are those
in progress; they are listed along the way. -/

namespace Moment

/-- A call is about to be made. -/
def IsCall (p : Moment) : Prop :=
  ∃ callee arguments line, p.task = .call callee arguments line

/-- Everything that an evaluation comes to, with the moments at which the calls in progress were
made, the last one first. -/
inductive Comes (p : Moment) : List Moment → Moment → Prop
  | here : p.Comes [] p
  | inside {calls q r} (h : p.Comes calls q) (next : q.Next r) (other : ¬q.IsCall) :
      p.Comes calls r
  | entered {calls q r} (h : p.Comes calls q) (next : q.Next r) (call : q.IsCall) :
      p.Comes (q :: calls) r

/-- Whatever a run comes to, it comes to with some calls in progress. -/
theorem Reaches.comes {p q : Moment} (h : p.Reaches q) : ∃ calls, p.Comes calls q := by
  induction h with
  | refl => exact ⟨[], .here⟩
  | @tail q r _ next ih =>
      obtain ⟨calls, ih⟩ := ih
      by_cases call : q.IsCall
      · exact ⟨q :: calls, .entered ih next call⟩
      · exact ⟨calls, .inside ih next call⟩

/-- Only a call, and only one with room for it, changes the count. -/
theorem Next.depth {p q : Moment} (h : p.Next q) :
    (¬p.IsCall ∧ q.machine.depth = p.machine.depth) ∨
      (p.IsCall ∧ p.machine.depth < maxDepth ∧ q.machine.depth = p.machine.depth + 1) := by
  have value {b e m v n} (he : Expr.eval (Callable.apply b) e m = .ok v n) : n.depth = m.depth :=
    ((evaluate_restores b e).of_ok he).depth
  have values {b es m vs n} (hes : Expr.evalAll (Callable.apply b) es m = .ok vs n) :
      n.depth = m.depth :=
    ((Expr.evalAll_restores b es).of_ok hes).depth
  have flow {b s m f n} (hs : Stmt.exec (Callable.apply b) b s m = .ok f n) : n.depth = m.depth :=
    ((execute_restores b s).of_ok hs).depth
  cases h with
  | body arity room hn =>
      exact .inr ⟨⟨_, _, _, rfl⟩, room, ((bindParameters_restores _ _).of_ok hn).depth⟩
  | right hx | logicalRight hx | write hx | arguments hx | setValue hx | otherExpressions hx | yes hx
  | no hx | loopBody hx => exact .inl ⟨by simp [IsCall], value hx⟩
  | call hf has => exact .inl ⟨by simp [IsCall], (values has).trans (value hf)⟩
  | loopAgain he _ hbody => exact .inl ⟨by simp [IsCall], (flow hbody).trans (value he)⟩
  | otherStatements hs => exact .inl ⟨by simp [IsCall], flow hs⟩
  | _ => exact .inl ⟨by simp [IsCall], rfl⟩

/-- The machine counts the calls in progress, and stops at its limit. -/
theorem Comes.depth {p q : Moment} {calls : List Moment} (h : p.Comes calls q) :
    q.machine.depth = p.machine.depth + calls.length ∧
      (p.machine.depth ≤ maxDepth → q.machine.depth ≤ maxDepth) := by
  induction h with
  | here => exact ⟨rfl, id⟩
  | inside _ next other ih =>
      rcases next.depth with ⟨-, same⟩ | ⟨call, -⟩
      · exact same ▸ ih
      · exact absurd call other
  | @entered calls q r _ next call ih =>
      rcases next.depth with ⟨other, -⟩ | ⟨-, room, more⟩
      · exact absurd call other
      · refine ⟨?_, fun _ => by omega⟩
        rw [more, ih.1, List.length_cons]
        omega

end Moment

/-! ## The rule for a call

What happens when a call is entered is decided by the count alone: at the limit it is refused, below
it the body runs with one more call counted. -/

/-- A call of what can be called, with as many arguments as that takes.  It is entered if there is
room for one more call, and then the callee runs with a count of one more; else it fails on the
line of its closing parenthesis, and nothing of the callee is run. -/
theorem evaluate_call {bound : Nat} {callee : Expr} {paren : Token} {arguments : List Expr}
    {m n k : Machine} {i : Nat} {c : Callable} {vs : List Value}
    (hcallee : evaluate bound callee m = .ok (.callable i c) n)
    (harguments : Expr.evalAll (Callable.apply bound) arguments n = .ok vs k)
    (arity : vs.length = c.arity) :
    evaluate bound (.call callee paren arguments) m =
      if k.depth < maxDepth then
        match Callable.apply bound c vs paren.line (k.withDepth (k.depth + 1)) with
        | .ok v j => .ok v (j.withDepth k.depth)
        | .error stop j => .error stop (j.withDepth k.depth)
      else .error (.failed (.runtime paren.line .stackOverflow)) k := by
  have entered : evaluate bound (.call callee paren arguments) m =
      entering paren.line (Callable.apply bound c vs paren.line) k := by
    calc evaluate bound (.call callee paren arguments) m
      _ = (Expr.evalAll (Callable.apply bound) arguments >>= fun xs =>
            callValue (Callable.apply bound) (.callable i c) xs paren.line) n := bind_ok hcallee
      _ = callValue (Callable.apply bound) (.callable i c) vs paren.line k := bind_ok harguments
      _ = entering paren.line (Callable.apply bound c vs paren.line) k := by
          simp only [callValue, arity, if_true]
  rw [entered]
  split
  next room =>
    rw [entering_eq room]
    have inside {j : Machine} (level : (k.withDepth (k.depth + 1)).Level j) :
        j.depth - 1 = k.depth := by
      rw [level.depth]
      exact Nat.add_sub_cancel k.depth 1
    have restores := Callable.apply_restores bound c vs paren.line
    cases hc : Callable.apply bound c vs paren.line (k.withDepth (k.depth + 1)) with
    | ok v j => simp only [inside (restores.of_ok hc)]
    | error stop j => simp only [inside (restores.of_error hc)]
  next full => exact entering_full (Nat.le_of_not_lt full)

/-! ## Sessions

A session can be used in every way that there is: sources run and programs parsed, resolved and run
one by one, with any bound, whether they end, fail or are given up. -/

namespace Session

/-- The sessions that come of a new one: sources and programs are run in it, statements are
executed and expressions evaluated, resolved or not, and the host defines globals. -/
inductive Used (clock : Nat → Float) (sink : Sink) : Session → Prop
  | initial : Used clock sink (initial clock sink)
  | run {s} (h : Used clock sink s) (bound : Nat) (source : String) :
      Used clock sink (s.run bound source).2
  | interpret {s} (h : Used clock sink s) (bound : Nat) (program : List Stmt) :
      Used clock sink (s.interpret bound program).2
  | runProgram {s} (h : Used clock sink s) (bound : Nat) (program : List Stmt) :
      Used clock sink (s.runProgram bound program).2
  | execute {s} (h : Used clock sink s) (bound : Nat) (stmt : Stmt) :
      Used clock sink (s.perform (execute bound stmt)).2
  | evaluate {s} (h : Used clock sink s) (bound : Nat) (e : Expr) :
      Used clock sink (s.perform (evaluate bound e)).2
  | defineGlobal {s} (h : Used clock sink s) (name : String) (value : Value) :
      Used clock sink { s with machine := s.machine.defineGlobal name value }

/-- What is evaluated when a session is used. -/
inductive Starts (s : Session) (bound : Nat) : Moment → Prop
  | run {source program s' s''} (hread : s.read source = (.done program, s'))
      (hresolve : s'.resolve program = (.done (), s'')) :
      s.Starts bound ⟨bound, .statements program, s''.machine⟩
  | interpret (program : List Stmt) : s.Starts bound ⟨bound, .statements program, s.machine⟩
  | runProgram {program s'} (hresolve : s.resolve program = (.done (), s')) :
      s.Starts bound ⟨bound, .statements program, s'.machine⟩
  | execute (stmt : Stmt) : s.Starts bound ⟨bound, .statement stmt, s.machine⟩
  | evaluate (e : Expr) : s.Starts bound ⟨bound, .expression e, s.machine⟩

variable {s s' : Session} {source : String} {program : List Stmt}

/-- Reading a source leaves the count and the environment alone. -/
theorem level_read (hread : s.read source = (.done program, s')) : s.machine.Level s'.machine := by
  obtain ⟨-, -, -, rfl⟩ := read_eq_done hread
  exact ⟨rfl, rfl⟩

theorem level_resolve (hresolve : s.resolve program = (.done (), s')) :
    s.machine.Level s'.machine := by
  obtain ⟨entries, -, rfl⟩ := resolve_eq_done hresolve
  exact ⟨rfl, rfl⟩

/-! ### What no use of a session changes -/

/-- Neither the host nor any step on a machine takes a property from it, and neither do the
distances of one more program. -/
structure Preserved (P : Machine → Prop) : Prop where
  resolved {m} (h : P m) (distances : Distances) : P { m with distances }
  interpret {m} (h : P m) (bound : Nat) (program : List Stmt) :
    P ((Lox.interpret bound program).left m)
  execute {m} (h : P m) (bound : Nat) (stmt : Stmt) : P ((Lox.execute bound stmt).left m)
  evaluate {m} (h : P m) (bound : Nat) (e : Expr) : P ((Lox.evaluate bound e).left m)
  defineGlobal {m} (h : P m) (name : String) (value : Value) : P (m.defineGlobal name value)

/-- The session keeps the machine that a step has left, whether it ended or failed. -/
theorem machine_perform {α : Type} (step : Eval α) (s : Session) :
    (s.perform step).2.machine = step.left s.machine := by
  simp only [perform, left]
  split
  next hs => rw [hs]
  next hs => rw [hs]
  next hs => rw [hs]

namespace Preserved

variable {P : Machine → Prop}

/-- Such a property is kept by a program that is resolved and run. -/
theorem runProgram (kept : Preserved P) (h : P s.machine) (bound : Nat) (program : List Stmt) :
    P (s.runProgram bound program).2.machine := by
  cases hentries : Lox.resolve program with
  | ok entries =>
      simp only [Session.runProgram, resolve_of_ok hentries, Session.interpret, machine_perform]
      exact kept.interpret (kept.resolved h _) bound program
  | error fault =>
      simp only [Session.runProgram, resolve, hentries]
      exact h

/-- And by a source that is run. -/
theorem run (kept : Preserved P) (h : P s.machine) (bound : Nat) (source : String) :
    P (s.run bound source).2.machine := by
  cases run_cases bound source s with
  | unread _ _ same =>
      rw [same]
      exact h
  | refused hread same =>
      obtain ⟨-, -, -, rfl⟩ := read_eq_done hread
      rw [same]
      exact h
  | interpreted hread hresolve =>
      obtain ⟨-, -, -, rfl⟩ := read_eq_done hread
      obtain ⟨entries, -, rfl⟩ := resolve_eq_done hresolve
      rw [run_eq_interpret hread hresolve, Session.interpret, machine_perform]
      exact kept.interpret (kept.resolved h _) bound _

end Preserved

/-- A property that a new machine has, and that nothing takes from a machine, holds between any two
uses of a session. -/
theorem Used.preserved {clock : Nat → Float} {sink : Sink} (used : Used clock sink s)
    {P : Machine → Prop} (kept : Preserved P) (h : P (.initial clock sink)) : P s.machine := by
  induction used with
  | initial => exact h
  | run _ bound source ih => exact kept.run ih bound source
  | interpret _ bound program ih => exact machine_perform _ _ ▸ kept.interpret ih bound program
  | runProgram _ bound program ih => exact kept.runProgram ih bound program
  | execute _ bound stmt ih => exact machine_perform _ _ ▸ kept.execute ih bound stmt
  | evaluate _ bound e ih => exact machine_perform _ _ ▸ kept.evaluate ih bound e
  | defineGlobal _ name value ih => exact kept.defineGlobal ih name value

/-- Nothing is in progress between two uses of a session. -/
theorem Used.idle {clock : Nat → Float} {sink : Sink} (h : Used clock sink s) :
    s.machine.env = Machine.globals ∧ s.machine.depth = 0 := by
  have carry {m n : Machine} (level : m.Level n) (h : m.env = Machine.globals ∧ m.depth = 0) :
      n.env = Machine.globals ∧ n.depth = 0 :=
    ⟨level.env.trans h.1, level.depth.trans h.2⟩
  refine h.preserved (P := fun m => m.env = Machine.globals ∧ m.depth = 0) ?_ ⟨rfl, rfl⟩
  exact {
    resolved := fun h _ => h
    interpret := fun h bound program => carry (interpret_restores bound program _) h
    execute := fun h bound stmt => carry (execute_restores bound stmt _) h
    evaluate := fun h bound e => carry (evaluate_restores bound e _) h
    defineGlobal := fun h _ _ => h }

/-- What is evaluated first begins with the count and the environment of the session. -/
theorem Starts.level {bound : Nat} {p : Moment} (h : s.Starts bound p) :
    s.machine.Level p.machine := by
  cases h with
  | run hread hresolve => exact (level_read hread).trans (level_resolve hresolve)
  | runProgram hresolve => exact level_resolve hresolve
  | interpret | execute | evaluate => exact ⟨rfl, rfl⟩

/-- The count is right at every moment, and never exceeds its limit. -/
theorem Starts.depth {clock : Nat → Float} {sink : Sink} (used : Used clock sink s) {bound : Nat}
    {p : Moment} (start : s.Starts bound p) {calls : List Moment} {q : Moment}
    (comes : p.Comes calls q) : q.machine.depth = calls.length ∧ calls.length ≤ maxDepth := by
  have none : p.machine.depth = 0 := start.level.depth.trans used.idle.2
  have count : q.machine.depth = calls.length := by rw [comes.depth.1, none, Nat.zero_add]
  exact ⟨count, count ▸ comes.depth.2 (none ▸ Nat.zero_le _)⟩

end Session

/-! ## No way out is left open

All exits together: of a statement and an expression, of a use of a session, and of a call. -/

/-- **Every step gives back what it took, and the count of the calls is right.**  However a
statement, a block or an expression ends, with any machine, the environment and the count are what
they were.  So between two uses of a session the environment is that of the globals and the count
is zero; at every moment of every use the count is the number of calls in progress and at most 512.
A call is entered if the count is below that, else it fails before its callee runs. -/
theorem every_exit_restores :
    (∀ bound : Nat, (∀ s, Restores (execute bound s)) ∧
      (∀ env body, Restores (executeIn bound env body)) ∧ ∀ e, Restores (evaluate bound e)) ∧
    (∀ clock sink s, Session.Used clock sink s →
      (s.machine.env = Machine.globals ∧ s.machine.depth = 0) ∧
      ∀ bound p q, s.Starts bound p → p.Reaches q →
        (∃ calls, p.Comes calls q) ∧
        ∀ calls, p.Comes calls q → q.machine.depth = calls.length ∧ calls.length ≤ 512) ∧
    (∀ bound callee paren arguments m i c n vs k,
      evaluate bound callee m = .ok (.callable i c) n →
      Expr.evalAll (Callable.apply bound) arguments n = .ok vs k → vs.length = c.arity →
      evaluate bound (.call callee paren arguments) m =
        if k.depth < 512 then
          match Callable.apply bound c vs paren.line (k.withDepth (k.depth + 1)) with
          | .ok v j => .ok v (j.withDepth k.depth)
          | .error stop j => .error stop (j.withDepth k.depth)
        else .error (.failed (.runtime paren.line .stackOverflow)) k) ∧
    RuntimeFault.stackOverflow.message = "Stack overflow." := by
  refine ⟨fun bound => ⟨execute_restores bound, executeIn_restores bound, evaluate_restores bound⟩,
    fun clock sink s used => ⟨used.idle, fun bound p q start reaches => ?_⟩, ?_, rfl⟩
  · exact ⟨reaches.comes, fun calls comes => start.depth used comes⟩
  · intro bound callee paren arguments m i c n vs k hcallee harguments arity
    exact evaluate_call hcallee harguments arity

/-- A global that was just defined is found by every access without a distance. -/
theorem Machine.find?_defineGlobal {m : Machine} {id : NodeId} {name : String} {value : Value}
    (unresolved : m.distances[id]? = none) (size : 0 < m.frames.size) :
    (m.defineGlobal name value).find? id name = some value := by
  simp only [find?, defineGlobal, unresolved]
  simp [Frames.find?, Frames.define, Frames.bindings_write, globals, Env.frames, size]

/-- A session whose last source failed inside a call inside a block, and a call of a global function
without parameters: while the body is run one call is in progress, and with 512 others in progress
the call fails on its own line. -/
theorem every_exit_restores_after_failure :
    ∃ (s : Session) (f : Value) (body : Moment), Session.Used (fun _ => 0) {} s ∧
      (s.machine.env = Machine.globals ∧ s.machine.depth = 0) ∧
      s.machine.find? 9 "f" = some f ∧
      Moment.Reaches ⟨2, .expression (.call (.read 9 ⟨.identifier, "f", 7, ()⟩)
        ⟨.symbol .rightParen, ")", 8, ()⟩ []), s.machine⟩ body ∧
      body.machine.depth = 1 ∧
      evaluate 2 (.call (.read 9 ⟨.identifier, "f", 7, ()⟩) ⟨.symbol .rightParen, ")", 8, ()⟩ [])
          (s.machine.withDepth 512) =
        .error (.failed (.runtime 8 .stackOverflow)) (s.machine.withDepth 512) := by
  obtain ⟨-, sessions, calls, -⟩ := every_exit_restores
  have failed : Session.Used (fun _ => 0) {} _ :=
    .run .initial 9 "\x7b fun g(a) \x7b return -a; \x7d g(nil); \x7d"
  -- The session is only opened where the kernel is to compute.
  generalize hs : (Session.run 9 _ _).2 = s at failed
  have unresolved : s.machine.distances[9]? = none := by
    rw [← hs]
    decide +kernel
  have size : 0 < s.machine.frames.size := by
    rw [← hs]
    decide +kernel
  let f : Value := .callable 9 (.function ⟨.identifier, "f", 1, ()⟩ [] [] Machine.globals)
  have used := failed.defineGlobal "f" f
  have found : (s.machine.defineGlobal "f" f).find? 9 "f" = some f :=
    Machine.find?_defineGlobal unresolved size
  obtain ⟨idle, moments⟩ := sessions _ _ _ used
  have call : Moment.Next ⟨2, .expression (.call (.read 9 ⟨.identifier, "f", 7, ()⟩)
      ⟨.symbol .rightParen, ")", 8, ()⟩ []), s.machine.defineGlobal "f" f⟩ _ :=
    .call (readVariable_some found) rfl
  have room : (s.machine.defineGlobal "f" f).depth < maxDepth := idle.2 ▸ (by decide : 0 < maxDepth)
  have body : Moment.Next ⟨2, .call f [] 8, s.machine.defineGlobal "f" f⟩ _ := .body rfl room rfl
  have reaches := call.reaches (body.reaches .refl)
  have comes := (Moment.Comes.here.inside call (by simp [Moment.IsCall])).entered body ⟨_, _, _, rfl⟩
  refine ⟨_, f, _, used, idle, found, reaches, ?_, ?_⟩
  · exact ((moments 2 _ _ (.evaluate _) reaches).2 _ comes).1
  · have full : evaluate 2 (.read 9 ⟨.identifier, "f", 7, ()⟩)
        ((s.machine.defineGlobal "f" f).withDepth 512) = .ok f _ := readVariable_some found
    exact calls 2 _ _ [] _ _ _ _ [] _ full rfl rfl

end Lox
