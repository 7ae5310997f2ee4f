import Lox.Proofs.Session.Identities
import Lox.Proofs.Session.Reachable

/-!
# Accesses to locals

Whatever sources a session has run, and whatever became of them, the resolver and the evaluator
mean the same variable by an access to a local.

The promise has two parts.  A recorded distance leads to a frame that binds the name, or else the
access writes to a local whose own initializer is still being evaluated, which is a fact of the text
and is listed with the program; such a write fails and changes nothing.  And no access without a
recorded distance is looked for anywhere but among the globals.

* `Moment.Agrees` — what the table of distances promises of the access that comes next.
* `Session.Reached.accesses_agree` — the table keeps its promise on every access of every run.
-/

namespace Lox

/-- What the table of distances promises of the access that comes next.  A read finds a value in
the frame at its distance.  So does the name of an assignment, but for an assignment in the
initializer of its own variable, which fails and leaves the machine as it was. -/
def Moment.Agrees (selfWrites : List NodeId) : Moment → Prop
  | ⟨_, .expression (.read id name), m⟩ => ∀ distance, m.distances[id]? = some distance →
      ∃ frame value, m.env.frames[distance]? = some frame ∧ frame < m.frames.size ∧
        (m.frames.bindings frame).lookup name.lexeme = some value ∧
        Eval.readVariable id name m = .ok value m
  | ⟨_, .write id name value, m⟩ => ∀ distance, m.distances[id]? = some distance →
      ∃ frame, m.env.frames[distance]? = some frame ∧ frame < m.frames.size ∧
        if id ∈ selfWrites then
          (m.frames.bindings frame).binds name.lexeme = false ∧
            Eval.writeVariable id name value m =
              .error (.failed (.runtime name.line (.undefinedVariable name.lexeme))) m
        else
          (m.frames.bindings frame).binds name.lexeme = true ∧
            Eval.writeVariable id name value m =
              .ok () { m with frames := m.frames.write frame name.lexeme value }
  | _ => True

/-- A task in the environment of the scopes around it is evaluated as the table promises. -/
theorem Moment.Fits.agrees {l : Resolution.Ledger} {p : Moment} (h : p.Fits l) :
    p.Agrees l.selfWrites := by
  unfold Agrees
  split
  next => exact fun distance hd => h.read hd
  next =>
    intro distance hd
    obtain ⟨frame, hframe, exists_frame, other, self⟩ := h.write hd
    refine ⟨frame, hframe, exists_frame, ?_⟩
    split
    next hmem => exact self hmem
    next hmem => exact other hmem
  next => trivial

/-- An access that fails is one the table says nothing about, or an assignment in the initializer of
its own variable. -/
theorem Moment.Agrees.of_undefined {selfWrites : List NodeId} {p : Moment} {id : NodeId}
    {name : Token} (h : p.Agrees selfWrites) (undefined : p.Undefined id name) :
    p.machine.distances[id]? = none ∨ id ∈ selfWrites := by
  cases undefined with
  | @read b _ _ m hf =>
      refine .inl (Option.eq_none_iff_forall_ne_some.2 fun distance hd => ?_)
      obtain ⟨frame, value, -, -, -, ok⟩ := h distance hd
      rw [Eval.readVariable_none hf] at ok
      cases ok
  | @write b _ _ value m hf =>
      by_cases hid : id ∈ selfWrites
      · exact .inr hid
      refine .inl (Option.eq_none_iff_forall_ne_some.2 fun distance hd => ?_)
      obtain ⟨frame, -, -, ok⟩ := h distance hd
      rw [if_neg hid, Eval.writeVariable_none hf] at ok
      cases ok.2

/-! ## Sessions

A promise is only worth something if the table makes it.  After the theorem there is a run with the
one kind of access that the promise excepts. -/

/-- What is assigned to what, if a program is a block that begins with a local that has an
assignment as its initializer. -/
def Stmt.initialWrite? : List Stmt → Option (NodeId × Token × Expr)
  | .block (.var _ (some (.assign id name value)) :: _) :: _ => some (id, name, value)
  | _ => none

/-- A program that begins so comes to the write, once it has the value that is assigned. -/
theorem Moment.reaches_initialWrite {program : List Stmt} {id : NodeId} {name : Token} {e : Expr}
    (begins : Stmt.initialWrite? program = some (id, name, e)) {b : Nat} {m n : Machine} {v : Value}
    (he : e.eval (Callable.apply b) (m.opened m.env) = .ok v n) :
    Reaches ⟨b, .statements program, m⟩ ⟨b, .write id name v, n⟩ := by
  unfold Stmt.initialWrite? at begins
  split at begins
  next =>
    cases begins
    have write : Reaches ⟨b, .expression (.assign id name e), m.opened m.env⟩ _ :=
      (Next.write he).reaches .refl
    exact Next.firstStatement.reaches (Next.block.reaches (Next.firstStatement.reaches
      (Next.initializer.reaches write)))
  next => cases begins

namespace Session

variable {clock : Nat → Float} {sink : Sink} {s s' s'' : Session} {programs program : List Stmt}
  {source : String}

/-- **The resolver and the evaluator agree.**  In a session that has run any sources, let another
one be read and resolved.  The table keeps its promise on every access that the run of its program
comes to, in its own statements and in functions of earlier programs; and if the run fails for a
variable without a value, it came to an access without a distance or to an assignment in the
initializer of its own variable. -/
theorem Reached.accesses_agree (reached : Reached clock sink s programs)
    (hread : s.read source = (.done program, s'))
    (hresolve : s'.resolve program = (.done (), s'')) (bound : Nat) :
    (∀ p, Moment.Reaches ⟨bound, .statements program, s''.machine⟩ p →
      p.Agrees (Stmt.selfWritesAll false (programs ++ program))) ∧
    (∀ line x, (s.run bound source).1 = .failed [.runtime line (.undefinedVariable x)] →
      ∃ p id name, Moment.Reaches ⟨bound, .statements program, s''.machine⟩ p ∧
        p.Undefined id name ∧ name.line = line ∧ name.lexeme = x ∧
        (p.machine.distances[id]? = none ∨
          id ∈ Stmt.selfWritesAll false (programs ++ program))) := by
  obtain ⟨ready, after, resolved⟩ := reached.ready.resolved hread hresolve
  have start : Moment.Fits (s''.ledger (programs ++ program))
      ⟨bound, .statements program, s''.machine⟩ :=
    ⟨ready.machine, [], after, ready.globals, resolved⟩
  have agrees : ∀ p, Moment.Reaches ⟨bound, .statements program, s''.machine⟩ p →
      p.Agrees (Stmt.selfWritesAll false (programs ++ program)) :=
    fun p run => (start.reaches run).agrees
  refine ⟨agrees, fun line x failed => ?_⟩
  have misses : Eval.Misses (executeProgram bound program) s''.machine line x := by
    rw [run_eq_interpret hread hresolve] at failed
    rcases Eval.misses_bind (perform_eq_failed failed) with h | ⟨_, n, -, h⟩
    · exact h
    · exact (Eval.not_misses_flush h).elim
  obtain ⟨p, id, name, run, undefined, hline, hname⟩ := executeProgram_founders program misses
  exact ⟨p, id, name, run, undefined, hline, hname, (agrees p run).of_undefined undefined⟩

/-- A local whose initializer assigns it what a function of an earlier source returns: of all
accesses that the run comes to, only that assignment, the seventh in the session, is one that
fails.  The run does come to it: it is recorded at distance 0, and the write fails. -/
theorem Reached.accesses_agree_own_initializer :
    ∃ (s : Session) (programs program : List Stmt) (s' s'' : Session),
      Reached (fun _ => 0) {} s programs ∧
      s.read "\x7b var x = x = f(nil); \x7d" = (.done program, s') ∧
      s'.resolve program = (.done (), s'') ∧
      (∀ p, Moment.Reaches ⟨9, .statements program, s''.machine⟩ p → p.Agrees [6]) ∧
      ∃ (name : Token) (v : Value) (m : Machine),
        Moment.Reaches ⟨9, .statements program, s''.machine⟩ ⟨9, .write 6 name v, m⟩ ∧
        m.distances[6]? = some 0 ∧
        Eval.writeVariable 6 name v m = .error (.failed (.runtime 1 (.undefinedVariable "x"))) m := by
  have first : Reached (fun _ => 0) {} _ _ :=
    .run .initial 9 "fun f(a) \x7b var b; b = a; return b; \x7d"
  -- The session is only opened where the kernel is to compute.
  generalize hs : (Session.run 9 _ _).2 = s at first
  have hread : s.read "\x7b var x = x = f(nil); \x7d" = _ :=
    read_of_faultless _ (by decide +kernel) (by rw [← hs]; decide +kernel)
  have hentries : Lox.resolve (s.parsed "\x7b var x = x = f(nil); \x7d").statements =
      .ok [(6, 0)] := by
    rw [← hs]
    decide +kernel
  have hself : Stmt.selfWritesAll false
      ([] ++ (Session.read "fun f(a) \x7b var b; b = a; return b; \x7d"
        (Session.initial (fun _ => 0) {})).1.program ++
      (s.parsed "\x7b var x = x = f(nil); \x7d").statements) = [6] := by
    rw [← hs]
    decide +kernel
  have found : (Stmt.initialWrite? (s.parsed "\x7b var x = x = f(nil); \x7d").statements).any
      fun w => w.1 == 6 && w.2.1.lexeme == "x" && w.2.1.line == 1 &&
        (EStateM.run' (w.2.2.eval (Callable.apply 9)) (({ s.machine with
          distances := s.machine.distances.add [(6, 0)] } : Machine).opened s.machine.env)).isSome := by
    rw [← hs]
    decide +kernel
  have agree := (accesses_agree first hread (resolve_of_ok hentries) 9).1
  rw [hself] at agree
  refine ⟨s, _, _, _, _, first, hread, resolve_of_ok hentries, agree, ?_⟩
  obtain ⟨⟨id, name, e⟩, begins, checks⟩ := (Option.any_eq_true _ _).1 found
  simp only [Bool.and_eq_true, beq_iff_eq] at checks
  obtain ⟨⟨⟨rfl, hname⟩, hline⟩, evaluates⟩ := checks
  unfold EStateM.run' at evaluates
  split at evaluates
  next v m he =>
    have run := Moment.reaches_initialWrite begins he
    have recorded : m.distances[6]? = some 0 := by
      have same : m.distances = s.machine.distances.add [(6, 0)] := run.distances
      rw [same]
      simp [Distances.add]
    obtain ⟨_, -, -, written⟩ := agree _ run 0 recorded
    rw [if_pos List.mem_cons_self, hname, hline] at written
    exact ⟨name, v, m, run, recorded, written.2⟩
  next => cases evaluates

end Session

end Lox
