import Lox.Proofs.Resolution.Walk

/-!
# Tables of distances

Entries are added one by one, and a later one for the same access would replace the first.  Since no
two accesses share an identity, none does; what a table says of an access is then the entry that was
added for it, or what it said before.

* `Distances.getElem?_add` — what a table says once entries were added.
* `Ledger.Tidy`, `Ledger.record`, `Ledger.add` — a ledger and its growth by statements, or by a
  program, that passed the walk.
* `Ledger.resolvedAll_record` — such a ledger is right about the statements.
-/

namespace Lox

open Resolution Parse

namespace Distances

theorem add_append (table : Distances) (es fs : List Entry) :
    add table (es ++ fs) = add (add table es) fs :=
  List.foldl_append

theorem add_cons (table : Distances) (id : NodeId) (distance : Nat) (es : List Entry) :
    add table ((id, distance) :: es) = add (table.insert id distance) es :=
  rfl

/-- An access without an entry keeps what the table said of it. -/
theorem getElem?_add_of_not_mem {table : Distances} {entries : List Entry} {id : NodeId}
    (h : id ∉ entries.map Prod.fst) : (add table entries)[id]? = table[id]? := by
  induction entries generalizing table with
  | nil => rfl
  | cons entry es ih =>
      obtain ⟨key, distance⟩ := entry
      simp only [List.map_cons, List.mem_cons, not_or] at h
      rw [add_cons, ih h.2, Std.TreeMap.getElem?_insert]
      simp [Ne.symm h.1]

/-- An entry that was added is found. -/
theorem getElem?_add_of_mem {table : Distances} {entries : List Entry} {id : NodeId}
    {distance : Nat} (hn : (entries.map Prod.fst).Nodup) (h : (id, distance) ∈ entries) :
    (add table entries)[id]? = some distance := by
  induction entries generalizing table with
  | nil => simp at h
  | cons entry es ih =>
      obtain ⟨key, distance'⟩ := entry
      simp only [List.map_cons, List.nodup_cons] at hn
      rw [add_cons]
      rcases List.mem_cons.1 h with h | h
      · obtain ⟨rfl, rfl⟩ := Prod.mk.inj h
        rw [getElem?_add_of_not_mem hn.1, Std.TreeMap.getElem?_insert]
        simp
      · exact ih hn.2 h

/-- After entries were added that no table before had anything on, the table says of their
accesses what they say. -/
theorem getElem?_add {table : Distances} {entries : List Entry} {id : NodeId}
    (hn : (entries.map Prod.fst).Nodup) (fresh : table[id]? = none) {distance : Nat} :
    (add table entries)[id]? = some distance ↔ (id, distance) ∈ entries := by
  refine ⟨fun h => ?_, getElem?_add_of_mem hn⟩
  by_cases hid : id ∈ entries.map Prod.fst
  · obtain ⟨⟨id, distance'⟩, hmem, rfl⟩ := List.mem_map.1 hid
    rw [getElem?_add_of_mem hn hmem] at h
    obtain rfl := Option.some.inj h
    exact hmem
  · rw [getElem?_add_of_not_mem hid, fresh] at h
    exact nomatch h

end Distances

namespace Resolution.Ledger

/-- A ledger has nothing on identities that were not given out. -/
structure Tidy (l : Ledger) : Prop where
  distances : ∀ id, l.next ≤ id → l.distances[id]? = none
  selfWrites : ∀ id ∈ l.selfWrites, id < l.next

/-- The ledger before any program. -/
def empty : Ledger :=
  ⟨{}, [], 0⟩

theorem tidy_empty : empty.Tidy :=
  ⟨fun _ _ => rfl, by simp [empty]⟩

/-- A ledger with more entries and assignments in initializers, after more identities. -/
def record (l : Ledger) (entries : List Entry) (own : List NodeId) (next : NodeId) : Ledger :=
  ⟨l.distances.add entries, l.selfWrites ++ own, next⟩

/-- A ledger after a program was read, with its entries if it passed the walk. -/
def add (l : Ledger) (program : List Stmt) (entries : List Entry) (next : NodeId) : Ledger :=
  ⟨l.distances.add entries, l.selfWrites ++ Stmt.selfWritesAll false program, next⟩

section
variable {l : Ledger} {ids own : List NodeId} {entries : List Entry} {next : NodeId}
  (minted : Minted l.next next ids) (keys : (entries.map Prod.fst).Subperm ids)
include minted keys

/-- No entry is for an access of another program. -/
theorem not_mem_keys {id : NodeId} (h : id < l.next ∨ next ≤ id) :
    id ∉ entries.map Prod.fst := by
  intro hmem
  obtain ⟨above, below⟩ := minted.range id (keys.subset hmem)
  rcases h with h | h
  · exact Nat.not_lt.2 above h
  · exact Nat.not_lt.2 h below

/-- Nothing that was known changes. -/
theorem extends_record (hown : own ⊆ ids) : l.Extends (l.record entries own next) := by
  refine ⟨minted.le, fun id hid => ?_, fun id hid => ?_⟩
  · exact Distances.getElem?_add_of_not_mem (not_mem_keys minted keys (.inl hid))
  · refine List.mem_append.trans (or_iff_left fun hmem => ?_)
    exact Nat.not_lt.2 (minted.range id (hown hmem)).1 hid

/-- A tidy ledger stays so when the entries of some statements are recorded. -/
theorem Tidy.record (tidy : l.Tidy) (hown : own ⊆ ids) : (l.record entries own next).Tidy := by
  refine ⟨fun id hid => ?_, fun id hid => ?_⟩
  · refine (Distances.getElem?_add_of_not_mem (not_mem_keys minted keys (.inr hid))).trans ?_
    exact tidy.distances id (Nat.le_trans minted.le hid)
  · rcases List.mem_append.1 hid with hid | hid
    · exact Nat.lt_of_lt_of_le (tidy.selfWrites id hid) minted.le
    · exact (minted.range id (hown hid)).2

end

section
variable {l : Ledger} {program : List Stmt} {entries : List Entry} {next : NodeId}
  (minted : Minted l.next next (Stmt.idsAll program))
  (keys : (entries.map Prod.fst).Subperm (Stmt.idsAll program))
include minted keys

/-- A ledger with a program added to it has grown. -/
theorem extends_add : l.Extends (l.add program entries next) :=
  extends_record minted keys (Stmt.selfWritesAll_subset _ _)

/-- And is still tidy. -/
theorem Tidy.add (tidy : l.Tidy) : (l.add program entries next).Tidy :=
  tidy.record minted keys (Stmt.selfWritesAll_subset _ _)

end

/-- The ledger is right about statements that passed the walk, once it has their entries. -/
theorem resolvedAll_record {l : Ledger} {ss : List Stmt} {entries : List Entry} {next : NodeId}
    (tidy : l.Tidy) (minted : Minted l.next next (Stmt.idsAll ss)) (shaped : Stmt.ShapedAll ss)
    {scopes after : Scopes} (settled : scopes.Settled)
    (h : Stmt.resolveAll scopes ss = .ok (after, entries)) :
    Stmt.ResolvedAll (l.record entries (Stmt.selfWritesAll (!scopes.isEmpty) ss) next) scopes ss
      after := by
  have keys := Stmt.keys_of_resolveAll ss h
  refine Stmt.resolvedAll_of_resolve ss shaped settled h minted.nodup ?_
  refine ⟨fun id hid => (minted.range id hid).2, fun id hid d => ?_, fun id hid => ?_⟩
  · exact Distances.getElem?_add (minted.subperm keys).nodup
      (tidy.distances id (minted.range id hid).1)
  · refine List.mem_append.trans (or_iff_right fun hmem => ?_)
    exact Nat.not_lt.2 (minted.range id hid).1 (tidy.selfWrites id hmem)

/-- The ledger is right about a program that passed the walk, once it has its entries. -/
theorem resolvedAll_add {l : Ledger} {program : List Stmt} {entries : List Entry} {next : NodeId}
    (tidy : l.Tidy) (minted : Minted l.next next (Stmt.idsAll program))
    (shaped : Stmt.ShapedAll program) {after : Scopes}
    (h : Stmt.resolveAll [] program = .ok (after, entries)) :
    Stmt.ResolvedAll (l.add program entries next) [] program after :=
  resolvedAll_record tidy minted shaped (by simp [Scopes.Settled]) h

end Resolution.Ledger

end Lox
