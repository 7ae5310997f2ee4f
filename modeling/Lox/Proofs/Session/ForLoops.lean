import Lox.Proofs.ForLoop.Faithful
import Lox.Proofs.Session.Reachable

/-!
# Loops in sessions

Whatever sources a session has run, its table has the entries of each program that was resolved, and
every function has the environment its body was resolved in.  So wherever a run comes to the tree of
a loop, the tree does what the loop does.

The claim about a single loop asks for three things: that the loop is as the grammar has it, that
the table has the entries of its resolution, and that it is executed in the environment of the
scopes around it.  A session has all three of every loop in a program that it has run.

* `Session.written_of_read` — a loop that was read is as the grammar has it.
* `forLoop_faithful` — **the tree that is made of a `for` loop is faithful to the loop.**
-/

namespace Lox

open Resolution

/-- The loop of a program that was read has declarations in their places and identities of its
own. -/
theorem Session.written_of_read {s s' : Session} {source : String} {f : ForLoop}
    {others : List Stmt} (hread : s.read source = (.done (f.tree :: others), s'))
    (clause : ∀ c ∈ f.initializer, c.IsClause) (nothing : f.body.declares = false) :
    f.Written := by
  obtain ⟨-, faultless, same, -⟩ := Session.read_eq_done hread
  have shaped := Session.shaped_parsed faultless
  have distinct : (Stmt.idsAll (s.parsed source).statements).Nodup :=
    Session.minted_parsed.nodup
  rw [← same] at shaped distinct
  refine ⟨clause, nothing, ?_, ?_⟩
  · have tree := shaped.1
    obtain ⟨initializer, condition, increment, body⟩ := f
    cases initializer <;> cases increment <;>
      simp_all [ForLoop.tree, Parse.forLoop, Stmt.Shaped, Stmt.ShapedAll]
  · simp only [Stmt.idsAll, Stmt.accessesAll, List.map_append] at distinct
    exact distinct.of_append_left

/-- **The tree that is made of a `for` loop is faithful to the loop.**  The parser reads the clauses
and the body and makes a tree of them.  In the same scopes, the walk refuses the tree and the loop
for the same faults.  Whenever, in any session, a run comes to the tree, it does what the loop
would do: the initializer once in a new scope, then rounds of condition, body and increment, in
which every name means the variable that it means without the block around body and increment.  And
all that the run comes to inside the loop, in particular where functions are made, has the one frame
of the loop around it. -/
theorem forLoop_faithful :
    (∀ k k' : Nat, (Parse.counting (Parse.statement k) k' : Parse.Rule Stmt) =
        ForLoop.tree <$> ForLoop.parsed (Parse.statement k) k' ∧
      ∀ (c d : Parse.Cursor) (f : ForLoop),
        ForLoop.parsed (Parse.statement k) k' c = .ok f d → f.Written) ∧
    ∀ f : ForLoop, f.Written →
      (∀ scopes : Scopes, scopes.Settled → ∀ fault,
        f.resolve scopes = .error fault ↔ f.tree.resolve scopes = .error fault) ∧
      ∀ (clock : Nat → Float) (sink : Sink) (s s' s'' : Session) (programs program : List Stmt)
        (source : String), Session.Reached clock sink s programs →
        s.read source = (.done program, s') → s'.resolve program = (.done (), s'') →
        ∀ (bound b : Nat) (m : Machine),
          Moment.Reaches ⟨bound, .statements program, s''.machine⟩ ⟨b, .statement f.tree, m⟩ →
            f.Faithful b s''.nextNode m ∧
            (f.initializer ≠ none → ∀ q : Moment, Moment.Reaches ⟨b, .statement f.tree, m⟩ q →
              q.bound = b → q = ⟨b, .statement f.tree, m⟩ ∨
                (m.env.push m.frames.next).frames <:+ q.machine.env.frames) := by
  refine ⟨fun k k' => ⟨ForLoop.counting_eq _ _, fun _ _ _ h => ForLoop.parsed_written h⟩,
    fun f written => ⟨fun scopes settled fault =>
      (ForLoop.resolve_both written settled).error_iff fault, ?_⟩⟩
  intro clock sink s s' s'' programs program source reached hread hresolve bound b m run
  refine ⟨?_, fun own q inside same => ForLoop.frame_shared own inside same⟩
  obtain ⟨ready, after, resolved⟩ := reached.ready.resolved hread hresolve
  have start : Moment.Fits (s''.ledger (programs ++ program))
      ⟨bound, .statements program, s''.machine⟩ :=
    ⟨ready.machine, [], after, ready.globals, resolved⟩
  obtain ⟨ok, scopes, _, owns, tree⟩ := start.reaches run
  exact ForLoop.tree_faithful ready.tidy ok owns written tree b

/-- The loop that is all of a program, if it declares a variable and has all other clauses. -/
def ForLoop.ofProgram? : List Stmt → Option ForLoop
  | [.block [.var name value, .loop condition (.block [body, .expression increment])]] =>
    some ⟨some (.var name value), some condition, some increment, body⟩
  | _ => none

/-- What is found is the loop that the program consists of, and its first clause declares a
variable. -/
theorem ForLoop.ofProgram?_eq_some {program : List Stmt} {f : ForLoop}
    (h : ofProgram? program = some f) :
    program = [f.tree] ∧ ∃ name value, f.initializer = some (.var name value) := by
  unfold ofProgram? at h
  split at h
  next name value condition body increment =>
    cases h
    exact ⟨rfl, name, value, rfl⟩
  next => cases h

/-- A loop that makes a function in each round, which reads the variable of the loop: as all that
the run comes to, the functions are made inside of the one frame of the loop. -/
theorem forLoop_faithful_function_in_round :
    (∃ (c d : Parse.Cursor) (f : ForLoop),
      ForLoop.parsed (Parse.statement 20) 20 c = .ok f d ∧ f.Written) ∧
    ∃ (f : ForLoop) (s' s'' : Session),
      (Session.initial (fun _ => 0) {}).read
        "for (var i; !i; i = true) \x7b fun f() \x7b print i; \x7d f(); \x7d" =
          (.done [f.tree], s') ∧
      s'.resolve [f.tree] = (.done (), s'') ∧ f.Written ∧ f.initializer ≠ none ∧
      (∀ fault, f.resolve [] = .error fault ↔ f.tree.resolve [] = .error fault) ∧
      f.Faithful 9 s''.nextNode s''.machine ∧
      ∀ q, Moment.Reaches ⟨9, .statement f.tree, s''.machine⟩ q → q.bound = 9 →
        q = ⟨9, .statement f.tree, s''.machine⟩ ∨
          (s''.machine.env.push s''.machine.frames.next).frames <:+ q.machine.env.frames := by
  obtain ⟨parsing, loops⟩ := forLoop_faithful
  refine ⟨?_, ?_⟩
  · have reads : (EStateM.run' (ForLoop.parsed (Parse.statement 20) 20) (⟨Scan.innerTokens
        "(var i; !i; i = true) print i;", 1, 0, #[]⟩ : Parse.Cursor)).isSome := by
      decide +kernel
    unfold EStateM.run' at reads
    split at reads
    next f d h => exact ⟨_, d, f, h, (parsing 20 20).2 _ d f h⟩
    next => cases reads
  · have hread : (Session.initial (fun _ => 0) {}).read
        "for (var i; !i; i = true) \x7b fun f() \x7b print i; \x7d f(); \x7d" = _ :=
      Session.read_of_faultless _ (by decide +kernel) (by decide +kernel)
    have hentries : resolve ((Session.initial (fun _ => 0) {}).parsed
        "for (var i; !i; i = true) \x7b fun f() \x7b print i; \x7d f(); \x7d").statements =
          .ok [(0, 0), (3, 3), (4, 0), (2, 1)] := by
      decide +kernel
    have found : (ForLoop.ofProgram? ((Session.initial (fun _ => 0) {}).parsed
        "for (var i; !i; i = true) \x7b fun f() \x7b print i; \x7d f(); \x7d").statements).any
          (fun f => !f.body.declares) := by
      decide +kernel
    have hresolve (s : Session) := Session.resolve_of_ok (s := s) hentries
    generalize ((Session.initial (fun _ => 0) {}).parsed
        "for (var i; !i; i = true) \x7b fun f() \x7b print i; \x7d f(); \x7d").statements =
      program at hread hresolve found
    obtain ⟨f, hf, nothing⟩ := (Option.any_eq_true _ _).1 found
    obtain ⟨rfl, name, value, clause⟩ := ForLoop.ofProgram?_eq_some hf
    have written : f.Written := Session.written_of_read hread
      (fun c hc => .inl ⟨name, value, Option.some.inj (hc.symm.trans clause)⟩)
      (by simpa using nothing)
    obtain ⟨refused, runs⟩ := loops f written
    obtain ⟨faithful, shared⟩ := runs _ _ _ _ _ _ _ _ .initial hread (hresolve _) 9 9 _
      (Moment.Next.firstStatement.reaches .refl)
    have own : f.initializer ≠ none := by simp [clause]
    exact ⟨f, _, _, hread, hresolve _, written, own, refused [] (by simp [Scopes.Settled]),
      faithful, shared own⟩

end Lox
