import Lox.Proofs.Braces.Runs
import Lox.Proofs.ForLoop.Runs
import Lox.Proofs.Resolution.Table

/-!
# Loops with identities of their own

The table of distances has one entry for each access, and the entries for the accesses of a loop are
those of its tree.  To run the loop as it is written, its accesses get new identities, under which
the table can have the entries of the walk over the loop.

The copy is a device of the comparison and not of the language.  One table cannot say two things of
one access, and the loop as it is written has other distances than its tree, one less for what is
inside the block around body and increment; so the loop needs accesses of its own to be run at all.

* `ForLoop.relabel` — the loop with other identities.
* `ForLoop.resolve_relabel` — the walk over it is that over the loop.
* `ForLoop.like_relabel` — it means the same as the tree of the loop.
-/

namespace Lox

open Resolution

namespace ForLoop

variable {f : ForLoop} {scopes scopes' after after' : Scopes}

/-! ## Identities

The loop and its tree have the same accesses, so they can get new identities together. -/

/-- The accesses of a loop are those of its tree. -/
theorem accessesAll_parts (f : ForLoop) : Stmt.accessesAll f.parts = f.tree.accesses := by
  obtain ⟨initializer, condition, increment, body⟩ := f
  cases initializer <;> cases condition <;> cases increment <;>
    simp [parts, repeated, tree, Parse.forLoop, Stmt.accesses, Stmt.accessesAll, Expr.accesses]

/-- A loop with other identities. -/
def relabel (ids : NodeId → NodeId) (f : ForLoop) : ForLoop where
  initializer := f.initializer.map (Stmt.relabel ids id)
  condition := f.condition.map (Expr.relabel ids id)
  increment := f.increment.map (Expr.relabel ids id)
  body := f.body.relabel ids id

section
variable (ids : NodeId → NodeId)

theorem parts_relabel : (f.relabel ids).parts = Stmt.relabelAll ids id f.parts := by
  obtain ⟨initializer, condition, increment, body⟩ := f
  cases initializer <;> cases condition <;> cases increment <;> rfl

theorem inner_relabel : (f.relabel ids).inner scopes = f.inner scopes := by
  obtain ⟨initializer, condition, increment, body⟩ := f
  cases initializer <;> rfl

/-- The walk over a loop does not depend on identities. -/
theorem resolve_relabel :
    (f.relabel ids).resolve scopes =
      relabelled id (relabelEntries ids) (f.resolve scopes) := by
  unfold resolve
  rw [parts_relabel, inner_relabel, Stmt.resolveAll_relabel]
  exact relabel_bind fun _ => rfl

theorem levels_relabel (levels : List Level) :
    (f.relabel ids).levels levels = f.levels levels := by
  obtain ⟨initializer, condition, increment, body⟩ := f
  cases initializer <;> rfl

theorem roundLevels_relabel (levels : List Level) :
    (f.relabel ids).roundLevels levels = f.roundLevels levels := by
  unfold roundLevels
  rw [levels_relabel]
  obtain ⟨initializer, condition, increment, body⟩ := f
  cases increment <;> rfl

/-- The identities of the copy are the new ones of those in the tree. -/
theorem idsAll_relabel : Stmt.idsAll (f.relabel ids).parts = f.tree.ids.map ids := by
  rw [parts_relabel, Stmt.idsAll, Stmt.accessesAll_relabel, accessesAll_parts, Stmt.ids,
    List.map_map, List.map_map]
  rfl

end

/-! ## The same meaning

A copy means the same as the tree of the loop, inside the scopes that the tree adds. -/

section
variable {l l' : Ledger} {levels : List Level} (ids : NodeId → NodeId)

/-- The body and the increment mean the same in the block around them, the scope of which stays
empty. -/
theorem round_like_relabel (written : f.Written)
    (braced : Scopes.Braced (f.levels levels) scopes scopes')
    (h : Stmt.ResolvedAll l scopes
      ((f.relabel ids).body :: (f.relabel ids).increment.toList.map .expression) after)
    (h' : f.round.Resolved l' scopes' after') :
    Stmt.Like (.bracing l.distances l'.distances) (f.roundLevels levels) (f.relabel ids).body
        f.body ∧
      Expr.LikeOption (.bracing l.distances l'.distances) (f.roundLevels levels)
        (f.relabel ids).increment f.increment := by
  obtain ⟨between, hb, hi⟩ := h
  obtain rfl := hb.after_of_not_declares ((f.body.declares_relabel ids id).trans written.body)
  have body {inner : List Level} {scopes' after' : Scopes}
      (braced : Scopes.Braced inner between scopes') (hb' : f.body.Resolved l' scopes' after') :=
    ((Stmt.Braces.refl f.body).like_relabel ids written.shaped (by simp [written.body]) braced hb
      hb').1
  unfold round at h'
  unfold roundLevels
  unfold relabel at hi ⊢
  cases hinc : f.increment with
  | none =>
      rw [hinc] at h'
      exact ⟨body braced h', .none⟩
  | some e =>
      rw [hinc] at h' hi
      obtain ⟨⟨_, between', hb', _, ⟨he', rfl⟩, -⟩, -⟩ := h'
      obtain ⟨_, ⟨he, rfl⟩, -⟩ := hi
      obtain rfl := hb'.after_of_not_declares written.body
      exact ⟨body braced.extra hb', .some (Expr.like_bracing ids braced.extra he he')⟩

theorem rounds_like_relabel (written : f.Written)
    (braced : Scopes.Braced (f.levels levels) scopes scopes')
    (h : Stmt.ResolvedAll l scopes (f.relabel ids).repeated after)
    (h' : f.rounds.Resolved l' scopes' after') :
    Expr.LikeOption (.bracing l.distances l'.distances) (f.levels levels)
        (f.relabel ids).condition f.condition ∧
      Stmt.Like (.bracing l.distances l'.distances) (f.roundLevels levels) (f.relabel ids).body
        f.body ∧
      Expr.LikeOption (.bracing l.distances l'.distances) (f.roundLevels levels)
        (f.relabel ids).increment f.increment := by
  obtain ⟨hc', hr', -⟩ := h'
  have condition : (f.relabel ids).condition = f.condition.map (Expr.relabel ids id) := rfl
  unfold repeated at h
  rw [condition] at h ⊢
  cases hcond : f.condition with
  | none =>
      rw [hcond] at h
      exact ⟨.none, round_like_relabel ids written braced h hr'⟩
  | some c =>
      rw [hcond] at h hc'
      obtain ⟨_, ⟨hc, rfl⟩, h⟩ := h
      exact ⟨.some (Expr.like_bracing ids braced hc hc'),
        round_like_relabel ids written braced h hr'⟩

/-- **A loop with other identities means the same as the tree of the loop**, if one ledger has the
entries of the walk over the loop and another one those of the walk over the tree. -/
theorem like_relabel (written : f.Written) (braced : Scopes.Braced levels scopes scopes')
    (h : Stmt.ResolvedAll l (f.inner scopes) (f.relabel ids).parts after)
    (h' : f.tree.Resolved l' scopes' after') :
    (f.relabel ids).Like levels (.bracing l.distances l'.distances) f := by
  have initializer : (f.relabel ids).initializer = f.initializer.map (Stmt.relabel ids id) := rfl
  rw [tree_eq] at h'
  unfold parts inner at h
  rw [initializer] at h
  cases hi : f.initializer with
  | none =>
      have same : f.levels levels = levels := by rw [ForLoop.levels, hi]
      rw [hi] at h h'
      obtain ⟨condition, body, increment⟩ :=
        rounds_like_relabel ids written (by rwa [same]) h h'
      refine ⟨?_, by rwa [levels_relabel], by rwa [roundLevels_relabel],
        by rwa [roundLevels_relabel]⟩
      rw [initializer, hi]
      exact .none
  | some clause =>
      have same : f.levels levels = .shared false :: levels := by rw [ForLoop.levels, hi]
      have shaped : clause.Shaped := (written.initializer clause hi).shaped
      rw [hi] at h h'
      obtain ⟨_, hs, h⟩ := h
      obtain ⟨⟨_, _, hs', _, hr, -⟩, -⟩ := h'
      obtain ⟨like, inner⟩ := (Stmt.Braces.refl clause).like_relabel ids shaped (fun _ => rfl)
        braced.openBlock hs hs'
      obtain ⟨condition, body, increment⟩ :=
        rounds_like_relabel ids written (by rwa [same]) h hr
      refine ⟨?_, by rwa [levels_relabel], by rwa [roundLevels_relabel],
        by rwa [roundLevels_relabel]⟩
      rw [initializer, hi]
      exact .some like

end

end ForLoop

end Lox
