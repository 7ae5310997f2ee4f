import Mathlib.Algebra.Order.BigOperators.Group.List
import Mathlib.Algebra.Order.Group.Nat
import Lox.Proofs.ForLoop.Copies
import Lox.Proofs.ForLoop.Sharing
import Lox.Proofs.Likeness.Lines
import Lox.Proofs.Resolution.Recorded

/-!
# The tree of a loop does what the loop does

Whenever a run comes to the tree of a `for` loop, it goes on as the loop as it is written would.
The loop is run with accesses of new identities, for which the table has the entries of the walk
over the loop; the tree is run with the entries of the walk over the tree.

* `ForLoop.RunsAlike` — what a run of a loop and one of the tree have in common.
* `ForLoop.Faithful` — on a machine, a tree does what the loop does.
* `ForLoop.tree_faithful` — so does every tree that a ledger is right about.
-/

namespace Lox

open Resolution

/-- A machine with more entries in its table. -/
def Machine.learned (m : Machine) (entries : List Entry) : Machine :=
  { m with distances := m.distances.add entries }

namespace ForLoop

/-- **A loop, run as it is written on the first machine, and the tree of another one, run on the
second machine, do the same.** -/
structure RunsAlike (bound : Nat) (levels : List Level) (copy f : ForLoop) (m m' : Machine) :
    Prop where
  /-- Every name means the variable that it means in the loop. -/
  like : copy.Like levels (.bracing m.distances m'.distances) f
  /-- Both end alike, and leave machines that mean the same. -/
  runs : Eval.Like (.bracing m.distances m'.distances) levels (World.same m'.frames.size)
    (copy.exec (Callable.apply bound) bound) (f.tree.exec (Callable.apply bound) bound) m m'
    (Flow.Like (.bracing m.distances m'.distances))
  /-- Both fail for the same reason, or none does. -/
  stops : ∀ stop, (∃ n, copy.exec (Callable.apply bound) bound m = .error stop n) ↔
    ∃ n, f.tree.exec (Callable.apply bound) bound m' = .error stop n
  /-- Both print the same. -/
  sink : ((f.tree.exec (Callable.apply bound) bound).left m').sink =
    ((copy.exec (Callable.apply bound) bound).left m).sink

/-- **The tree of a loop does what the loop does**, in the scopes that the machine is in.  The tree
has the entries that the table has; the loop is run with the entries of the walk over it, for its
accesses with identities from `next` on. -/
def Faithful (bound : Nat) (next : NodeId) (m : Machine) (f : ForLoop) : Prop :=
  ∃ scopes recorded direct, m.Owns scopes ∧ f.tree.resolve scopes = .ok (scopes, recorded) ∧
    (∀ id ∈ f.tree.ids, ∀ distance,
      m.distances[id]? = some distance ↔ (id, distance) ∈ recorded) ∧
    f.resolve scopes = .ok direct ∧
    RunsAlike bound (Level.plain scopes.length) (f.relabel (· + next)) f
      (m.learned (relabelEntries (· + next) direct)) m

variable {f : ForLoop} {m m' : Machine}

theorem RunsAlike.of_runs {bound : Nat} {levels : List Level} {copy : ForLoop}
    (like : copy.Like levels (.bracing m.distances m'.distances) f)
    (runs : Eval.Like (.bracing m.distances m'.distances) levels (World.same m'.frames.size)
      (copy.exec (Callable.apply bound) bound) (f.tree.exec (Callable.apply bound) bound) m m'
      (Flow.Like (.bracing m.distances m'.distances))) : RunsAlike bound levels copy f m m' := by
  refine ⟨like, runs, fun stop => ?_, ?_⟩
  · unfold Eval.Like at runs
    split at runs
    next hs hs' => simp [hs, hs']
    next hs hs' =>
      obtain ⟨w, -, same⟩ := runs
      rw [hs, hs', same.eq]
      simp
    next => exact runs.elim
  · unfold Eval.Like at runs
    split at runs
    next hs hs' =>
      obtain ⟨w, leads, -⟩ := runs
      rw [Eval.left_ok hs, Eval.left_ok hs']
      exact leads.alike.machine.sink
    next hs hs' =>
      obtain ⟨w, leads, -⟩ := runs
      rw [Eval.left_error hs, Eval.left_error hs']
      exact leads.alike.machine.sink
    next => exact runs.elim

/-! ## Fresh identities

The copy of the loop has identities behind all that were given out, so the table can be told of
both. -/

theorem Written.shapedAll_parts (written : f.Written) : Stmt.ShapedAll f.parts := by
  have clause := written.initializer
  have body := written.shaped
  obtain ⟨initializer, condition, increment, body⟩ := f
  have shaped : ∀ s ∈ initializer, s.Shaped := fun s hs => (clause s hs).shaped
  cases initializer <;> cases condition <;> cases increment <;>
    simp_all [parts, repeated, Stmt.ShapedAll, Stmt.Shaped]

/-- Identities that are moved up are new. -/
theorem Written.minted (written : f.Written) (next : NodeId) :
    ∃ next', Parse.Minted next next' (Stmt.idsAll (f.relabel (· + next)).parts) := by
  refine ⟨f.tree.ids.sum + 1 + next, Nat.le_add_left _ _, ?_, fun id hid => ?_⟩
  · rw [idsAll_relabel]
    exact written.distinct.map (add_left_injective next)
  · rw [idsAll_relabel] at hid
    obtain ⟨i, hi, rfl⟩ := List.mem_map.1 hid
    have le : i ≤ f.tree.ids.sum := List.single_le_sum (fun _ _ => Nat.zero_le _) i hi
    exact ⟨Nat.le_add_left _ _, Nat.add_lt_add_right (Nat.lt_succ_of_le le) next⟩

theorem settled_inner {scopes : Scopes} (settled : scopes.Settled) : (f.inner scopes).Settled := by
  unfold inner
  split
  · exact settled.openBlock
  · exact settled

/-- A later ledger that is right about the loop with new identities. -/
theorem Written.later {l : Ledger} (written : f.Written) (tidy : l.Tidy) {scopes : Scopes}
    (settled : scopes.Settled) {direct : List Entry} (h : f.resolve scopes = .ok direct) :
    ∃ (l' : Ledger) (after : Scopes), l.Extends l' ∧
      l'.distances = l.distances.add (relabelEntries (· + l.next) direct) ∧
      Stmt.ResolvedAll l' (f.inner scopes) (f.relabel (· + l.next)).parts after := by
  have hcopy : (f.relabel (· + l.next)).resolve scopes =
      .ok (relabelEntries (· + l.next) direct) := by
    rw [resolve_relabel, h]
    rfl
  generalize relabelEntries (· + l.next) direct = entries at hcopy ⊢
  obtain ⟨⟨after, found⟩, walk, hpure⟩ := except_bind_eq_ok.1 hcopy
  obtain rfl : found = entries := except_pure_eq_ok.1 hpure
  rw [inner_relabel] at walk
  have shaped : Stmt.ShapedAll (f.relabel (· + l.next)).parts := by
    rw [parts_relabel]
    exact Stmt.shapedAll_relabel _ _ _ written.shapedAll_parts
  obtain ⟨next, minted⟩ := written.minted l.next
  exact ⟨_, after, Ledger.extends_record minted (Stmt.keys_of_resolveAll _ walk)
    (Stmt.selfWritesAll_subset _ _), rfl,
    Ledger.resolvedAll_record tidy minted shaped (settled_inner settled) walk⟩

/-! ## The run

The copy and the tree are both resolved in the scopes around the loop, so they mean the same and
their runs end alike. -/

/-- **A tree that a ledger is right about does what the loop does.** -/
theorem tree_faithful {l : Ledger} (tidy : l.Tidy) (ok : m.Ok l) {scopes after : Scopes}
    (owns : m.Owns scopes) (written : f.Written) (resolved : f.tree.Resolved l scopes after)
    (bound : Nat) : f.Faithful bound l.next m := by
  obtain ⟨declares, shaped⟩ := shaped_tree written
  obtain rfl := resolved.after_of_not_declares declares
  obtain ⟨recorded, walk, had, others⟩ :=
    Stmt.Resolved.accepted f.tree shaped (fun _ => declares) resolved
  rw [← ok.distances] at had others
  obtain ⟨direct, hdirect, -⟩ := (resolve_both written owns.settled).ok_left walk
  refine ⟨after, recorded, direct, owns, walk, fun id hid distance =>
    ⟨others id hid distance, had id distance⟩, hdirect, ?_⟩
  obtain ⟨l', inside, later, table, resolved'⟩ := written.later tidy owns.settled hdirect
  have like := like_relabel (· + l.next) written (Scopes.Braced.refl after) resolved' resolved
  have alike := ok.alike Likeness.plain_bracing later (.refl l) owns
  rw [Machine.mapLines_id, ← ok.distances, table, ← ok.distances] at alike
  rw [table, ← ok.distances] at like
  exact .of_runs like (exec_like (Callable.apply_like bound) like rfl bound alike)

end ForLoop

end Lox
