import Lox.Proofs.Braces.Resolution
import Lox.Proofs.ForLoop.Direct

/-!
# The walk over a loop and over its tree

The tree of a loop has a block around the body and the increment that the loop does not have.  No
name is declared directly in that block, so its scope stays empty.

Scopes that differ only in empty ones have the same names pending, and refuse the same declarations,
since a name is declared in the innermost scope and none is declared in the empty one.

* `ForLoop.resolve_both` — the walk refuses the tree of a loop just if it refuses the loop.
-/

namespace Lox

open Resolution

theorem Stmt.IsClause.shaped {s : Stmt} (h : s.IsClause) : s.Shaped := by
  rcases h with ⟨name, value, rfl⟩ | ⟨e, rfl⟩
  · trivial
  · trivial

/-- After the first clause no initializer is being resolved. -/
theorem Stmt.IsClause.settled {s : Stmt} {scopes after : Scopes}
    {entries : List Entry} (h : s.IsClause) (settled : scopes.Settled)
    (hs : s.resolve scopes = .ok (after, entries)) : after.Settled := by
  rcases h with ⟨name, value, rfl⟩ | ⟨e, rfl⟩
  · obtain ⟨declared, hd, -, rfl⟩ := Stmt.resolve_var_eq_ok.1 hs
    exact settled.introduce (Scopes.introduce_eq_ok_iff.2 ⟨declared, hd, rfl⟩)
  · rwa [(Stmt.resolve_expression_eq_ok.1 hs).2]

namespace ForLoop

variable {f : ForLoop} {scopes : Scopes}

/-! ## One round

The block around the body and the increment opens a scope in which nothing is declared. -/

/-- The block around the body and the increment is in the way of no name. -/
theorem round_both (written : f.Written) (settled : scopes.Settled) :
    Both (fun _ _ => True)
      (Stmt.resolveAll scopes (f.body :: f.increment.toList.map .expression))
      (f.round.resolve scopes) := by
  have braced := Scopes.Braced.refl scopes
  unfold round
  cases f.increment with
  | none =>
      have body := (Stmt.Braces.refl f.body).resolve_both written.shaped (by simp [written.body])
        braced settled
      simp only [Option.toList_none, List.map_nil, Stmt.resolveAll]
      rw [← bind_pure (f.body.resolve scopes)]
      simp only [bind_assoc, pure_bind]
      exact body.bind fun _ _ _ => .passes trivial
  | some increment =>
      have body := (Stmt.Braces.refl f.body).resolve_both written.shaped (by simp [written.body])
        braced.extra settled
      simp only [Option.toList_some, List.map_cons, List.map_nil, Stmt.resolve, Stmt.resolveAll,
        bind_assoc, pure_bind]
      refine body.bind fun _ _ ⟨between, settled⟩ => ?_
      exact (increment.resolve_both (between.pending_settled settled)).bind fun _ _ _ =>
        .passes trivial

theorem rounds_both (written : f.Written) (settled : scopes.Settled) :
    Both (fun _ _ => True) (Stmt.resolveAll scopes f.repeated) (f.rounds.resolve scopes) := by
  have round := round_both written settled
  unfold repeated rounds
  generalize f.body :: f.increment.toList.map .expression = others at round ⊢
  cases f.condition with
  | none =>
      simp only [Option.toList_none, List.map_nil, List.nil_append, Option.getD_none, Stmt.resolve,
        Expr.resolve, pure_bind]
      rw [← bind_pure (Stmt.resolveAll _ _)]
      exact round.bind fun _ _ _ => .passes trivial
  | some condition =>
      simp only [Option.toList_some, List.map_cons, List.map_nil, List.cons_append,
        List.nil_append, Option.getD_some, Stmt.resolve, Stmt.resolveAll, bind_assoc, pure_bind]
      exact (Both.same (condition.resolve none scopes)).bind fun _ _ _ =>
        round.bind fun _ _ _ => .passes trivial

/-! ## The loop

The first clause is the only part that declares a name outside of the body. -/

/-- **The walk refuses the tree of a loop just if it refuses the loop**, for the same fault. -/
theorem resolve_both (written : f.Written) (settled : scopes.Settled) :
    Both (fun _ _ => True) (f.resolve scopes) (f.tree.resolve scopes) := by
  unfold resolve inner parts
  rw [tree_eq]
  rcases hi : f.initializer with _ | initializer
  · have rounds := rounds_both written settled
    rw [← bind_pure (f.rounds.resolve scopes)]
    exact rounds.bind fun _ _ _ => .passes trivial
  · have clause := written.initializer initializer hi
    simp only [Option.toList_some, List.cons_append, List.nil_append, Stmt.resolve,
      Stmt.resolveAll, bind_assoc, pure_bind]
    refine ((Both.same _).and_left fun _ hr => hr).bind fun p _ ⟨same, hr⟩ => ?_
    obtain rfl := same
    exact (rounds_both written (clause.settled settled.openBlock hr)).bind fun _ _ _ =>
      .passes trivial

/-- The tree of a loop is no declaration, and has none but in its places. -/
theorem shaped_tree (written : f.Written) : f.tree.declares = false ∧ f.tree.Shaped := by
  rw [tree, Grammar.forLoop_eq_asWhile]
  exact Grammar.shaped_asWhile (fun s hs => (written.initializer s hs).shaped)
    ⟨written.body, written.shaped⟩

end ForLoop

end Lox
