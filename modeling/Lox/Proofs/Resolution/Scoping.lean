import Mathlib.Data.List.Perm.Subperm
import Lox.Proofs.Parse.Identity
import Lox.Proofs.Parse.Shape
import Lox.Proofs.Resolution.Scopes

/-!
# What a table of distances says about a tree

The walk over a tree checks and records in one pass.  Here the outcome is stated without the walk:
`Stmt.Resolved` says of a tree, the scopes around it and a ledger that every access has the
distance of its scope, and which assignments hit a variable whose initializer they stand in.  It
still holds when the ledger grows.

* `Ledger` — the distances and identities that the programs of a session have left.
* `Expr.Resolved`, `Stmt.Resolved` — trees that a ledger is right about.
* `Stmt.selfWrites` — the assignments to a local inside its own initializer.
* `Stmt.Resolved.mono` — what a ledger is right about, a larger one is right about.
-/

namespace Lox

open Resolution

/-! ## Assignments in an initializer

A local can be assigned to in its own initializer, where it is declared but has no value yet.  Which
assignments do is a matter of the text alone. -/

/-- The identities of the assignments to a name in an expression. -/
def Expr.selfWrites (name : String) (e : Expr) : List NodeId :=
  (e.accesses.filter fun a => a.assigns && a.name.lexeme == name).map Access.id

mutual

/-- The identities of the assignments to a local that stand in the initializer of that local.
`enclosed` says whether the statement stands in a block or a function. -/
def Stmt.selfWrites (enclosed : Bool) : Stmt → List NodeId
  | .var name (some e) => if enclosed then e.selfWrites name.lexeme else []
  | .block body => Stmt.selfWritesAll true body
  | .branch _ yes none => yes.selfWrites enclosed
  | .branch _ yes (some no) => yes.selfWrites enclosed ++ no.selfWrites enclosed
  | .loop _ body => body.selfWrites enclosed
  | .function _ _ body => Stmt.selfWritesAll true body
  | _ => []

/-- The same for statements that follow each other. -/
def Stmt.selfWritesAll (enclosed : Bool) : List Stmt → List NodeId
  | [] => []
  | s :: ss => s.selfWrites enclosed ++ Stmt.selfWritesAll enclosed ss

end

/-- Only accesses in the initializer are listed. -/
theorem Expr.selfWrites_subset (name : String) (e : Expr) : e.selfWrites name ⊆ e.ids :=
  List.map_subset _ (List.filter_subset_self _)

mutual

theorem Stmt.selfWrites_subset (enclosed : Bool) : ∀ s : Stmt, s.selfWrites enclosed ⊆ s.ids
  | .expression _ | .print _ | .ret _ _ | .cls _ | .var _ none => by simp [selfWrites]
  | .var name (some e) => by
      cases enclosed with
      | false => simp [selfWrites]
      | true =>
          simpa [selfWrites, ids, Expr.ids, accesses] using Expr.selfWrites_subset name.lexeme e
  | .block body => Stmt.selfWritesAll_subset true body
  | .function _ _ body => Stmt.selfWritesAll_subset true body
  | .branch _ yes none => by
      have hy := Stmt.selfWrites_subset enclosed yes
      simp only [selfWrites, ids, accesses, List.map_append]
      exact List.subset_append_of_subset_right _ hy
  | .branch _ yes (some no) => by
      have hy := Stmt.selfWrites_subset enclosed yes
      have hn := Stmt.selfWrites_subset enclosed no
      simp only [selfWrites, ids, accesses, List.map_append, List.append_assoc]
      exact List.subset_append_of_subset_right _ (List.append_subset.2
        ⟨List.subset_append_of_subset_left _ hy, List.subset_append_of_subset_right _ hn⟩)
  | .loop _ body => by
      have hb := Stmt.selfWrites_subset enclosed body
      simp only [selfWrites, ids, accesses, List.map_append]
      exact List.subset_append_of_subset_right _ hb

theorem Stmt.selfWritesAll_subset (enclosed : Bool) :
    ∀ ss : List Stmt, Stmt.selfWritesAll enclosed ss ⊆ Stmt.idsAll ss
  | [] => by simp [selfWritesAll]
  | s :: ss => by
      have hs := Stmt.selfWrites_subset enclosed s
      have hss := Stmt.selfWritesAll_subset enclosed ss
      simp only [selfWritesAll, idsAll, accessesAll, List.map_append]
      exact List.append_subset.2
        ⟨List.subset_append_of_subset_left _ hs, List.subset_append_of_subset_right _ hss⟩

end

/-! ## Ledgers

A table of distances alone does not say which identities are used up, nor which assignments are in
their own initializer; a ledger adds both. -/

namespace Resolution

/-- What the programs of a session have left. -/
structure Ledger where
  distances : Distances
  /-- The assignments to a local inside its own initializer. -/
  selfWrites : List NodeId
  /-- All identities so far are below this one. -/
  next : NodeId

/-- A later ledger says the same about old identities. -/
structure Ledger.Extends (l l' : Ledger) : Prop where
  next : l.next ≤ l'.next
  distances : ∀ id < l.next, l'.distances[id]? = l.distances[id]?
  selfWrites : ∀ id < l.next, (id ∈ l'.selfWrites ↔ id ∈ l.selfWrites)

theorem Ledger.Extends.refl (l : Ledger) : l.Extends l :=
  ⟨Nat.le_refl _, fun _ _ => rfl, fun _ _ => Iff.rfl⟩

/-- A ledger that has grown twice has grown. -/
theorem Ledger.Extends.trans {l l' l'' : Ledger} (h : l.Extends l') (h' : l'.Extends l'') :
    l.Extends l'' := by
  refine ⟨Nat.le_trans h.next h'.next, fun id hid => ?_, fun id hid => ?_⟩
  · exact (h'.distances id (Nat.lt_of_lt_of_le hid h.next)).trans (h.distances id hid)
  · exact (h'.selfWrites id (Nat.lt_of_lt_of_le hid h.next)).trans (h.selfWrites id hid)

end Resolution

/-- A ledger is right about an access inside the given scopes. -/
structure Access.Resolved (l : Ledger) (scopes : Scopes) (a : Access) : Prop where
  known : a.id < l.next
  distance : l.distances[a.id]? = scopes.distance? a.name.lexeme
  /-- A variable is not read in its own initializer. -/
  readable : a.assigns = false → scopes.isPending a.name.lexeme = false
  /-- It may be assigned there. -/
  selfWrite : a.assigns = true →
    (a.id ∈ l.selfWrites ↔ scopes.isPending a.name.lexeme = true)

/-- A ledger is right about an expression. -/
def Expr.Resolved (l : Ledger) (scopes : Scopes) (e : Expr) : Prop :=
  ∀ a ∈ e.accesses, a.Resolved l scopes

mutual

/-- A ledger is right about a statement inside the given scopes, after which the scopes are
`after`. -/
def Stmt.Resolved (l : Ledger) (scopes : Scopes) : Stmt → (after : Scopes) → Prop
  | .expression e, after | .print e, after => e.Resolved l scopes ∧ after = scopes
  | .var name initializer, after => ∃ declared, scopes.declare name = .ok declared ∧
      (∀ e ∈ initializer, e.Resolved l declared) ∧ after = declared.define name
  | .block body, after =>
      (∃ inner, Stmt.ResolvedAll l scopes.openBlock body inner) ∧ after = scopes
  | .branch condition yes none, after =>
      condition.Resolved l scopes ∧ yes.Resolved l scopes scopes ∧ after = scopes
  | .branch condition yes (some no), after =>
      condition.Resolved l scopes ∧ yes.Resolved l scopes scopes ∧
        no.Resolved l scopes scopes ∧ after = scopes
  | .loop condition body, after =>
      condition.Resolved l scopes ∧ body.Resolved l scopes scopes ∧ after = scopes
  | .function name parameters body, after => scopes.introduce name = .ok after ∧
      ∃ opened inner, after.openFunction parameters = .ok opened ∧
        Stmt.ResolvedAll l opened body inner
  | .ret _ value, after =>
      scopes.inFunction = true ∧ (∀ e ∈ value, e.Resolved l scopes) ∧ after = scopes
  | .cls name, after => scopes.introduce name = .ok after

/-- A ledger is right about statements that follow each other. -/
def Stmt.ResolvedAll (l : Ledger) (scopes : Scopes) : List Stmt → (after : Scopes) → Prop
  | [], after => after = scopes
  | s :: ss, after => ∃ between, s.Resolved l scopes between ∧ Stmt.ResolvedAll l between ss after

end

/-! ### Growth -/

section
variable {l l' : Ledger}

theorem Access.Resolved.mono (h : l.Extends l') {scopes : Scopes} {a : Access}
    (ha : a.Resolved l scopes) : a.Resolved l' scopes where
  known := Nat.lt_of_lt_of_le ha.known h.next
  distance := (h.distances a.id ha.known).trans ha.distance
  readable := ha.readable
  selfWrite hw := (h.selfWrites a.id ha.known).trans (ha.selfWrite hw)

theorem Expr.Resolved.mono (h : l.Extends l') {scopes : Scopes} {e : Expr}
    (he : e.Resolved l scopes) : e.Resolved l' scopes :=
  fun a ha => (he a ha).mono h

mutual

theorem Stmt.Resolved.mono (h : l.Extends l') {scopes after : Scopes} :
    ∀ {s : Stmt}, s.Resolved l scopes after → s.Resolved l' scopes after
  | .expression _, ⟨he, same⟩ | .print _, ⟨he, same⟩ => ⟨he.mono h, same⟩
  | .var _ _, ⟨declared, hd, hi, same⟩ => ⟨declared, hd, fun e he => (hi e he).mono h, same⟩
  | .block _, ⟨⟨inner, hb⟩, same⟩ => ⟨⟨inner, Stmt.ResolvedAll.mono h hb⟩, same⟩
  | .branch _ _ none, ⟨hc, hy, same⟩ => ⟨hc.mono h, Stmt.Resolved.mono h hy, same⟩
  | .branch _ _ (some _), ⟨hc, hy, hn, same⟩ =>
      ⟨hc.mono h, Stmt.Resolved.mono h hy, Stmt.Resolved.mono h hn, same⟩
  | .loop _ _, ⟨hc, hb, same⟩ => ⟨hc.mono h, Stmt.Resolved.mono h hb, same⟩
  | .function _ _ _, ⟨hn, opened, inner, ho, hb⟩ =>
      ⟨hn, opened, inner, ho, Stmt.ResolvedAll.mono h hb⟩
  | .ret _ _, ⟨hf, hv, same⟩ => ⟨hf, fun e he => (hv e he).mono h, same⟩
  | .cls _, hn => hn

theorem Stmt.ResolvedAll.mono (h : l.Extends l') {scopes after : Scopes} :
    ∀ {ss : List Stmt}, Stmt.ResolvedAll l scopes ss after → Stmt.ResolvedAll l' scopes ss after
  | [], same => same
  | _ :: _, ⟨between, hs, hss⟩ =>
      ⟨between, Stmt.Resolved.mono h hs, Stmt.ResolvedAll.mono h hss⟩

end

end

/-- Only a declaration changes the open scopes. -/
theorem Stmt.Resolved.after_of_not_declares {l : Ledger} {s : Stmt} {scopes after : Scopes}
    (h : s.Resolved l scopes after) (hd : s.declares = false) : after = scopes := by
  cases s with
  | var | function | cls => cases hd
  | expression | print | block => exact h.2
  | loop | ret => exact h.2.2
  | branch condition yes no =>
      cases no with
      | none => exact h.2.2
      | some no => exact h.2.2.2

/-- No statement opens or closes a scope around the next one. -/
theorem Stmt.Resolved.length {l : Ledger} : ∀ {s : Stmt} {scopes after : Scopes},
    s.Resolved l scopes after → after.length = scopes.length
  | .var _ _, _, _, ⟨_, hd, _, rfl⟩ => Scopes.length_define.trans (Scopes.length_declare hd)
  | .function _ _ _, _, _, ⟨h, _⟩ | .cls _, _, _, h => Scopes.length_introduce h
  | .expression _, _, _, ⟨_, rfl⟩ | .print _, _, _, ⟨_, rfl⟩ | .block _, _, _, ⟨_, rfl⟩
  | .branch _ _ none, _, _, ⟨_, _, rfl⟩ | .branch _ _ (some _), _, _, ⟨_, _, _, rfl⟩
  | .loop _ _, _, _, ⟨_, _, rfl⟩ | .ret _ _, _, _, ⟨_, _, rfl⟩ => rfl

end Lox
