import Mathlib.Data.List.Nodup
import Lox.Proofs.Resolution.Inversion
import Lox.Proofs.Resolution.Scoping

/-!
# The walk over a tree

The walk succeeds only on trees that its own entries are right about, once they are in a ledger
and no two accesses share an identity.

The entries of the whole walk are at hand only when it is over, but each of its steps recorded some
of them.  So what is shown of a step is shown for every ledger that agrees with its entries on its
own accesses, and the parts of a tree get their share of the ledger by the identities that are in
them.

* `Entries` — what the walk records of an expression.
* `Agrees` — a ledger and the entries say the same about some identities.
* `resolvedAll_of_resolve` — statements that passed the walk.
-/

namespace Lox

open Resolution

/-! ## Expressions

An expression declares nothing, so all its accesses are seen in the same scopes. -/

/-- Entries of accesses inside the given scopes: one for each access that is not global. -/
structure Resolution.Entries (scopes : Scopes) (accesses : List Access) (entries : List Entry) :
    Prop where
  keys : (entries.map Prod.fst).Subperm (accesses.map Access.id)
  mem : ∀ p, p ∈ entries ↔
    ∃ a ∈ accesses, a.id = p.1 ∧ scopes.distance? a.name.lexeme = some p.2
  readable : ∀ a ∈ accesses, a.assigns = false → scopes.isPending a.name.lexeme = false

namespace Resolution.Entries

variable {scopes : Scopes} {as bs : List Access} {es fs : List Entry}

theorem nil : Entries scopes [] [] :=
  ⟨.refl _, by simp, by simp⟩

theorem append (h : Entries scopes as es) (h' : Entries scopes bs fs) :
    Entries scopes (as ++ bs) (es ++ fs) := by
  refine ⟨?_, fun p => ?_, fun a ha => ?_⟩
  · simp only [List.map_append]
    exact h.keys.append h'.keys
  · simp only [List.mem_append, h.mem p, h'.mem p]
    constructor
    · rintro (⟨a, ha, hp⟩ | ⟨a, ha, hp⟩)
      · exact ⟨a, .inl ha, hp⟩
      · exact ⟨a, .inr ha, hp⟩
    · rintro ⟨a, ha | ha, hp⟩
      · exact .inl ⟨a, ha, hp⟩
      · exact .inr ⟨a, ha, hp⟩
  · rcases List.mem_append.1 ha with ha | ha
    · exact h.readable a ha
    · exact h'.readable a ha

/-- The order in which accesses are met is of no account. -/
theorem of_perm (h : Entries scopes as es) (perm : as.Perm bs) : Entries scopes bs es := by
  refine ⟨h.keys.trans (perm.map _).subperm, fun p => ?_, fun a ha => ?_⟩
  · simp only [h.mem p, perm.mem_iff]
  · exact h.readable a (perm.mem_iff.2 ha)

/-- One access records its own entry, and is not refused if it does not read a name that is
pending. -/
theorem entry {a : Access} (h : a.assigns = false → scopes.isPending a.name.lexeme = false) :
    Entries scopes [a] (scopes.entry a.id a.name.lexeme) := by
  refine ⟨?_, fun p => ?_, fun b hb => by rwa [List.mem_singleton.1 hb]⟩
  · cases hd : scopes.distance? a.name.lexeme with
    | none => simp [Scopes.entry, hd]
    | some d => simp [Scopes.entry, hd]
  · obtain ⟨id, d⟩ := p
    simp only [Scopes.entry, Option.mem_toList, Option.map_eq_some_iff, Prod.mk.injEq,
      List.mem_singleton]
    constructor
    · rintro ⟨d, hd, rfl, rfl⟩
      exact ⟨a, rfl, rfl, hd⟩
    · rintro ⟨_, rfl, rfl, hd⟩
      exact ⟨d, hd, rfl, rfl⟩

end Resolution.Entries

mutual

/-- What the walk records of an expression. -/
theorem Expr.entries_of_resolve {own? : Option String} {scopes : Scopes} :
    ∀ (e : Expr) {entries : List Entry}, e.resolve own? scopes = .ok entries →
      Entries scopes e.accesses entries
  | .literal _, entries, h => by
      obtain rfl := Expr.resolve_literal_eq_ok.1 h
      exact .nil
  | .group inner, entries, h => Expr.entries_of_resolve inner h
  | .unary _ operand, entries, h => Expr.entries_of_resolve operand h
  | .binary left _ right, entries, h => by
      obtain ⟨_, _, hl, hr, rfl⟩ := Expr.resolve_binary_eq_ok.1 h
      exact (Expr.entries_of_resolve left hl).append (Expr.entries_of_resolve right hr)
  | .logical left _ right, entries, h => by
      obtain ⟨_, _, hl, hr, rfl⟩ := Expr.resolve_logical_eq_ok.1 h
      exact (Expr.entries_of_resolve left hl).append (Expr.entries_of_resolve right hr)
  | .read id name, entries, h => by
      obtain ⟨readable, -, rfl⟩ := Expr.resolve_read_eq_ok.1 h
      exact Entries.entry (a := ⟨id, name, false⟩) fun _ => readable
  | .assign id name value, entries, h => by
      obtain ⟨_, hv, rfl⟩ := Expr.resolve_assign_eq_ok.1 h
      have write : Entries scopes [⟨id, name, true⟩] (scopes.entry id name.lexeme) :=
        Entries.entry fun h => nomatch h
      exact ((Expr.entries_of_resolve value hv).append write).of_perm
        (List.perm_append_singleton _ _)
  | .call callee _ arguments, entries, h => by
      obtain ⟨_, _, hc, ha, rfl⟩ := Expr.resolve_call_eq_ok.1 h
      exact (Expr.entries_of_resolve callee hc).append (Expr.entries_of_resolveAll arguments ha)
  | .get object _, entries, h => Expr.entries_of_resolve object h
  | .set object _ value, entries, h => by
      obtain ⟨_, _, hv, ho, rfl⟩ := Expr.resolve_set_eq_ok.1 h
      -- the walk takes the value first
      exact ((Expr.entries_of_resolve value hv).append (Expr.entries_of_resolve object ho)).of_perm
        List.perm_append_comm

/-- What the walk records of expressions that follow each other. -/
theorem Expr.entries_of_resolveAll {own? : Option String} {scopes : Scopes} :
    ∀ (es : List Expr) {entries : List Entry}, Expr.resolveAll own? scopes es = .ok entries →
      Entries scopes (Expr.accessesAll es) entries
  | [], entries, h => by
      obtain rfl := Expr.resolveAll_nil_eq_ok.1 h
      exact .nil
  | e :: es, entries, h => by
      obtain ⟨_, _, he, hes, rfl⟩ := Expr.resolveAll_cons_eq_ok.1 h
      exact (Expr.entries_of_resolve e he).append (Expr.entries_of_resolveAll es hes)

end

theorem Expr.entries_of_resolveOption {own? : Option String} {scopes : Scopes}
    {value : Option Expr} {entries : List Entry}
    (h : Expr.resolveOption own? scopes value = .ok entries) :
    Entries scopes (value.toList.flatMap Expr.accesses) entries := by
  cases value with
  | none =>
      obtain rfl := except_pure_eq_ok.1 h
      exact .nil
  | some e => simpa using Expr.entries_of_resolve e h

/-! ## Statements

The entries of statements are for accesses in them, at most one for each. -/

mutual

/-- The walk records at most one entry for each access of a statement. -/
theorem Stmt.keys_of_resolve :
    ∀ (s : Stmt) {scopes after : Scopes} {entries : List Entry},
      s.resolve scopes = .ok (after, entries) → (entries.map Prod.fst).Subperm s.ids
  | .expression e, scopes, after, entries, h =>
      (e.entries_of_resolve (Stmt.resolve_expression_eq_ok.1 h).1).keys
  | .print e, scopes, after, entries, h =>
      (e.entries_of_resolve (Stmt.resolve_print_eq_ok.1 h).1).keys
  | .var name initializer, scopes, after, entries, h => by
      obtain ⟨declared, -, hi, -⟩ := Stmt.resolve_var_eq_ok.1 h
      exact (Expr.entries_of_resolveOption hi).keys
  | .block body, scopes, after, entries, h => by
      obtain ⟨⟨inner, hb⟩, -⟩ := Stmt.resolve_block_eq_ok.1 h
      exact Stmt.keys_of_resolveAll body hb
  | .branch condition yes none, scopes, after, entries, h => by
      obtain ⟨_, _, hc, hy, rfl⟩ := Stmt.resolve_ifOnly_eq_ok.1 h
      simp only [ids, accesses, List.map_append]
      exact (condition.entries_of_resolve hc).keys.append (Stmt.keys_of_resolve yes hy)
  | .branch condition yes (some no), scopes, after, entries, h => by
      obtain ⟨_, _, _, _, hc, hy, hn, rfl⟩ := Stmt.resolve_ifElse_eq_ok.1 h
      simp only [ids, accesses, List.map_append]
      exact ((condition.entries_of_resolve hc).keys.append (Stmt.keys_of_resolve yes hy)).append
        (Stmt.keys_of_resolve no hn)
  | .loop condition body, scopes, after, entries, h => by
      obtain ⟨_, _, hc, hb, rfl⟩ := Stmt.resolve_loop_eq_ok.1 h
      simp only [ids, accesses, List.map_append]
      exact (condition.entries_of_resolve hc).keys.append (Stmt.keys_of_resolve body hb)
  | .function name parameters body, scopes, after, entries, h => by
      obtain ⟨-, opened, inner, -, hb⟩ := Stmt.resolve_function_eq_ok.1 h
      exact Stmt.keys_of_resolveAll body hb
  | .ret keyword value, scopes, after, entries, h =>
      (Expr.entries_of_resolveOption (Stmt.resolve_ret_eq_ok.1 h).2.1).keys
  | .cls name, scopes, after, entries, h => by
      obtain ⟨-, rfl⟩ := Stmt.resolve_cls_eq_ok.1 h
      exact List.nil_subperm

theorem Stmt.keys_of_resolveAll :
    ∀ (ss : List Stmt) {scopes after : Scopes} {entries : List Entry},
      Stmt.resolveAll scopes ss = .ok (after, entries) →
        (entries.map Prod.fst).Subperm (Stmt.idsAll ss)
  | [], scopes, after, entries, h => by
      obtain ⟨-, rfl⟩ := Stmt.resolveAll_nil_eq_ok.1 h
      exact List.nil_subperm
  | s :: ss, scopes, after, entries, h => by
      obtain ⟨between, _, _, hs, hss, rfl⟩ := Stmt.resolveAll_cons_eq_ok.1 h
      simp only [idsAll, accessesAll, List.map_append]
      exact (Stmt.keys_of_resolve s hs).append (Stmt.keys_of_resolveAll ss hss)

end

mutual

/-- Only a declaration changes the open scopes. -/
theorem Stmt.after_of_resolve :
    ∀ (s : Stmt) {scopes after : Scopes} {entries : List Entry}, s.Shaped →
      s.declares = false → s.resolve scopes = .ok (after, entries) → after = scopes
  | .expression _, scopes, after, entries, _, _, h => (Stmt.resolve_expression_eq_ok.1 h).2
  | .print _, scopes, after, entries, _, _, h => (Stmt.resolve_print_eq_ok.1 h).2
  | .block _, scopes, after, entries, _, _, h => (Stmt.resolve_block_eq_ok.1 h).2
  | .branch _ yes none, scopes, after, entries, ⟨hd, hs⟩, _, h => by
      obtain ⟨_, _, -, hy, -⟩ := Stmt.resolve_ifOnly_eq_ok.1 h
      exact Stmt.after_of_resolve yes hs hd hy
  | .branch _ yes (some no), scopes, after, entries, ⟨⟨hdy, hsy⟩, hdn, hsn⟩, _, h => by
      obtain ⟨between, _, _, _, -, hy, hn, -⟩ := Stmt.resolve_ifElse_eq_ok.1 h
      rw [Stmt.after_of_resolve no hsn hdn hn, Stmt.after_of_resolve yes hsy hdy hy]
  | .loop _ body, scopes, after, entries, ⟨hd, hs⟩, _, h => by
      obtain ⟨_, _, -, hb, -⟩ := Stmt.resolve_loop_eq_ok.1 h
      exact Stmt.after_of_resolve body hs hd hb
  | .ret _ _, scopes, after, entries, _, _, h => (Stmt.resolve_ret_eq_ok.1 h).2.2

end

/-! ## Ledgers that have the entries

The walk over a statement, read backwards: from the entries to what the ledger says. -/

/-- About the given identities, a ledger says what the entries of the walk and the list `own` of
assignments to a local in its initializer say. -/
structure Resolution.Agrees (l : Ledger) (entries : List Entry) (own ids : List NodeId) :
    Prop where
  known : ∀ id ∈ ids, id < l.next
  distances : ∀ id ∈ ids, ∀ d, l.distances[id]? = some d ↔ (id, d) ∈ entries
  selfWrites : ∀ id ∈ ids, (id ∈ l.selfWrites ↔ id ∈ own)

namespace Resolution.Agrees

variable {l : Ledger} {es fs : List Entry} {os ps is js : List NodeId}

/-- Of two trees without a common identity each has its own entries. -/
theorem of_append (h : Agrees l (es ++ fs) (os ++ ps) (is ++ js)) (hn : (is ++ js).Nodup)
    (hes : (es.map Prod.fst).Subperm is) (hfs : (fs.map Prod.fst).Subperm js)
    (hos : os ⊆ is) (hps : ps ⊆ js) : Agrees l es os is ∧ Agrees l fs ps js := by
  have apart : ∀ id ∈ is, id ∉ js := fun id hi hj =>
    (List.nodup_append.1 hn).2.2 id hi id hj rfl
  have key {gs : List Entry} {ks : List NodeId} (hg : (gs.map Prod.fst).Subperm ks) {id d : Nat}
      (hmem : (id, d) ∈ gs) : id ∈ ks :=
    hg.subset (List.mem_map_of_mem hmem)
  refine ⟨⟨fun id hi => h.known id (List.mem_append_left _ hi), fun id hi d => ?_, fun id hi => ?_⟩,
    ⟨fun id hj => h.known id (List.mem_append_right _ hj), fun id hj d => ?_, fun id hj => ?_⟩⟩
  · rw [h.distances id (List.mem_append_left _ hi), List.mem_append]
    exact or_iff_left fun hmem => apart id hi (key hfs hmem)
  · rw [h.selfWrites id (List.mem_append_left _ hi), List.mem_append]
    exact or_iff_left fun hmem => apart id hi (hps hmem)
  · rw [h.distances id (List.mem_append_right _ hj), List.mem_append]
    exact or_iff_right fun hmem => apart id (key hes hmem) hj
  · rw [h.selfWrites id (List.mem_append_right _ hj), List.mem_append]
    exact or_iff_right fun hmem => apart id (hos hmem) hj

/-- An expression has no assignment to a local that stands in an initializer, a condition in
particular. -/
theorem of_condition (h : Agrees l (es ++ fs) ps (is ++ js)) (hn : (is ++ js).Nodup)
    (hes : (es.map Prod.fst).Subperm is) (hfs : (fs.map Prod.fst).Subperm js) (hps : ps ⊆ js) :
    Agrees l es [] is ∧ Agrees l fs ps js :=
  of_append h hn hes hfs (List.nil_subset _) hps

end Resolution.Agrees

/-- Accesses that share no identity are told apart by it. -/
theorem Access.eq_of_id_eq {as : List Access} (hn : (as.map Access.id).Nodup) {a b : Access}
    (ha : a ∈ as) (hb : b ∈ as) (h : a.id = b.id) : a = b :=
  List.inj_on_of_nodup_map hn ha hb h

/-- What the walk records of an expression is right in a ledger that has it. -/
theorem Expr.resolved_of_entries {l : Ledger} {scopes : Scopes} {e : Expr} {entries : List Entry}
    {own : List NodeId} (h : Entries scopes e.accesses entries) (hn : e.ids.Nodup)
    (agrees : Agrees l entries own e.ids)
    (hown : ∀ a ∈ e.accesses, a.assigns = true →
      (a.id ∈ own ↔ scopes.isPending a.name.lexeme = true)) : e.Resolved l scopes := by
  intro a ha
  have hid : a.id ∈ e.ids := List.mem_map_of_mem ha
  refine ⟨agrees.known _ hid, Option.ext fun d => ?_, h.readable a ha, fun hw => ?_⟩
  · rw [agrees.distances _ hid, h.mem]
    constructor
    · rintro ⟨b, hb, same, hd⟩
      rwa [← Access.eq_of_id_eq hn hb ha same]
    · exact fun hd => ⟨a, ha, rfl, hd⟩
  · exact (agrees.selfWrites _ hid).trans (hown a ha hw)

/-- In an initializer of a local, the assignments to that local are those to a pending name. -/
theorem Expr.mem_selfWrites {e : Expr} (hn : e.ids.Nodup) {name : String} {a : Access}
    (ha : a ∈ e.accesses) (hw : a.assigns = true) :
    a.id ∈ e.selfWrites name ↔ a.name.lexeme = name := by
  simp only [selfWrites, List.mem_map, List.mem_filter, Bool.and_eq_true, beq_iff_eq]
  constructor
  · rintro ⟨b, ⟨hb, -, hname⟩, same⟩
    rwa [← Access.eq_of_id_eq hn hb ha same]
  · exact fun hname => ⟨a, ⟨ha, hw, hname⟩, rfl⟩

/-- Where no name is pending no assignment is one in an initializer. -/
theorem Expr.resolved_of_settled {l : Ledger} {scopes : Scopes} (hs : scopes.Settled) {e : Expr}
    {entries : List Entry} (h : Entries scopes e.accesses entries) (hn : e.ids.Nodup)
    (agrees : Agrees l entries [] e.ids) : e.Resolved l scopes :=
  Expr.resolved_of_entries h hn agrees fun a _ _ => by simp [hs.isPending]

/-- Statements keep the scopes apart from the names that the innermost one declares. -/
theorem Stmt.Resolved.settled {l : Ledger} :
    ∀ {s : Stmt} {scopes after : Scopes}, scopes.Settled → s.Resolved l scopes after →
      after.Settled ∧ after.isEmpty = scopes.isEmpty
  | .var name _, [], _, hs, ⟨_, hd, _, rfl⟩ => by
      cases hd
      exact ⟨hs, rfl⟩
  | .var name _, s :: outer, _, hs, ⟨_, hd, _, rfl⟩ => by
      obtain ⟨hfree, rfl⟩ := Scopes.declare_cons_eq_ok hd
      exact ⟨hs.introduce (Scopes.introduce_cons hfree), rfl⟩
  | .function _ _ _, _, _, hs, ⟨hn, _⟩ | .cls _, _, _, hs, hn =>
      ⟨hs.introduce hn, Scopes.isEmpty_introduce hn⟩
  | .expression _, _, _, hs, ⟨_, rfl⟩ | .print _, _, _, hs, ⟨_, rfl⟩
  | .block _, _, _, hs, ⟨_, rfl⟩ | .branch _ _ none, _, _, hs, ⟨_, _, rfl⟩
  | .branch _ _ (some _), _, _, hs, ⟨_, _, _, rfl⟩ | .loop _ _, _, _, hs, ⟨_, _, rfl⟩
  | .ret _ _, _, _, hs, ⟨_, _, rfl⟩ => ⟨hs, rfl⟩

mutual

/-- A statement that passed the walk, in a ledger that has its entries. -/
theorem Stmt.resolved_of_resolve {l : Ledger} :
    ∀ (s : Stmt) {scopes after : Scopes} {entries : List Entry}, s.Shaped → scopes.Settled →
      s.resolve scopes = .ok (after, entries) → s.ids.Nodup →
      Agrees l entries (s.selfWrites !scopes.isEmpty) s.ids → s.Resolved l scopes after
  | .expression e, scopes, after, entries, _, hs, h, hn, agrees => by
      obtain ⟨he, rfl⟩ := Stmt.resolve_expression_eq_ok.1 h
      exact ⟨Expr.resolved_of_settled hs (e.entries_of_resolve he) hn agrees, rfl⟩
  | .print e, scopes, after, entries, _, hs, h, hn, agrees => by
      obtain ⟨he, rfl⟩ := Stmt.resolve_print_eq_ok.1 h
      exact ⟨Expr.resolved_of_settled hs (e.entries_of_resolve he) hn agrees, rfl⟩
  | .var name initializer, scopes, after, entries, _, hs, h, hn, agrees => by
      obtain ⟨declared, hd, hi, rfl⟩ := Stmt.resolve_var_eq_ok.1 h
      refine ⟨declared, hd, fun e he => ?_, rfl⟩
      obtain rfl : initializer = some e := he
      simp only [ids, accesses, Option.toList_some, List.flatMap_cons, List.flatMap_nil,
        List.append_nil] at hn agrees
      have recorded := e.entries_of_resolve hi
      cases scopes with
      | nil =>
          cases hd
          exact Expr.resolved_of_settled hs recorded hn agrees
      | cons s outer =>
          obtain ⟨-, rfl⟩ := Scopes.declare_cons_eq_ok hd
          refine Expr.resolved_of_entries recorded hn agrees fun a ha hw => ?_
          rw [Scopes.isPending_add (hs s List.mem_cons_self)]
          exact Expr.mem_selfWrites hn ha hw
  | .block body, scopes, after, entries, hshape, hs, h, hn, agrees => by
      obtain ⟨⟨inner, hb⟩, rfl⟩ := Stmt.resolve_block_eq_ok.1 h
      exact ⟨⟨inner, Stmt.resolvedAll_of_resolve body hshape hs.openBlock hb hn agrees⟩, rfl⟩
  | .branch condition yes none, scopes, after, entries, ⟨hd, hshape⟩, hs, h, hn, agrees => by
      obtain ⟨_, _, hc, hy, rfl⟩ := Stmt.resolve_ifOnly_eq_ok.1 h
      obtain rfl := Stmt.after_of_resolve yes hshape hd hy
      simp only [ids, accesses, List.map_append] at hn agrees
      have entriesC := condition.entries_of_resolve hc
      obtain ⟨agreesC, agreesY⟩ := agrees.of_condition hn entriesC.keys
        (Stmt.keys_of_resolve yes hy) (Stmt.selfWrites_subset _ yes)
      obtain ⟨hnC, hnY, -⟩ := List.nodup_append.1 hn
      exact ⟨Expr.resolved_of_settled hs entriesC hnC agreesC,
        Stmt.resolved_of_resolve yes hshape hs hy hnY agreesY, rfl⟩
  | .branch condition yes (some no), scopes, after, entries, ⟨⟨hdY, hshapeY⟩, hdN, hshapeN⟩, hs,
      h, hn, agrees => by
      obtain ⟨between, first, second, third, hc, hy, hno, rfl⟩ := Stmt.resolve_ifElse_eq_ok.1 h
      obtain rfl := Stmt.after_of_resolve yes hshapeY hdY hy
      obtain rfl := Stmt.after_of_resolve no hshapeN hdN hno
      simp only [ids, accesses, List.map_append, List.append_assoc] at hn agrees
      have entriesC := condition.entries_of_resolve hc
      have keysY := Stmt.keys_of_resolve yes hy
      have keysN := Stmt.keys_of_resolve no hno
      have keysYN : ((second ++ third).map Prod.fst).Subperm (yes.ids ++ no.ids) := by
        rw [List.map_append]
        exact keysY.append keysN
      have ownYN : (yes.selfWrites !after.isEmpty) ++ (no.selfWrites !after.isEmpty) ⊆
          yes.ids ++ no.ids :=
        List.append_subset.2 ⟨List.subset_append_of_subset_left _ (Stmt.selfWrites_subset _ yes),
          List.subset_append_of_subset_right _ (Stmt.selfWrites_subset _ no)⟩
      obtain ⟨agreesC, agreesYN⟩ := agrees.of_condition hn entriesC.keys keysYN ownYN
      obtain ⟨hnC, hnYN, -⟩ := List.nodup_append.1 hn
      obtain ⟨agreesY, agreesN⟩ := agreesYN.of_append hnYN keysY keysN
        (Stmt.selfWrites_subset _ yes) (Stmt.selfWrites_subset _ no)
      obtain ⟨hnY, hnN, -⟩ := List.nodup_append.1 hnYN
      exact ⟨Expr.resolved_of_settled hs entriesC hnC agreesC,
        Stmt.resolved_of_resolve yes hshapeY hs hy hnY agreesY,
        Stmt.resolved_of_resolve no hshapeN hs hno hnN agreesN, rfl⟩
  | .loop condition body, scopes, after, entries, ⟨hd, hshape⟩, hs, h, hn, agrees => by
      obtain ⟨_, _, hc, hb, rfl⟩ := Stmt.resolve_loop_eq_ok.1 h
      obtain rfl := Stmt.after_of_resolve body hshape hd hb
      simp only [ids, accesses, List.map_append] at hn agrees
      have entriesC := condition.entries_of_resolve hc
      obtain ⟨agreesC, agreesB⟩ := agrees.of_condition hn entriesC.keys
        (Stmt.keys_of_resolve body hb) (Stmt.selfWrites_subset _ body)
      obtain ⟨hnC, hnB, -⟩ := List.nodup_append.1 hn
      exact ⟨Expr.resolved_of_settled hs entriesC hnC agreesC,
        Stmt.resolved_of_resolve body hshape hs hb hnB agreesB, rfl⟩
  | .function name parameters body, scopes, after, entries, hshape, hs, h, hn, agrees => by
      obtain ⟨hname, opened, inner, ho, hb⟩ := Stmt.resolve_function_eq_ok.1 h
      obtain ⟨t, rfl, -⟩ := Scopes.openFunction_eq_ok ho
      exact ⟨hname, t :: after, inner, ho,
        Stmt.resolvedAll_of_resolve body hshape ((hs.introduce hname).openFunction ho) hb hn agrees⟩
  | .ret keyword value, scopes, after, entries, _, hs, h, hn, agrees => by
      obtain ⟨hf, hv, rfl⟩ := Stmt.resolve_ret_eq_ok.1 h
      refine ⟨hf, fun e he => ?_, rfl⟩
      obtain rfl : value = some e := he
      simp only [ids, accesses, Option.toList_some, List.flatMap_cons, List.flatMap_nil,
        List.append_nil] at hn agrees
      exact Expr.resolved_of_settled hs (e.entries_of_resolve hv) hn agrees
  | .cls name, scopes, after, entries, _, hs, h, hn, agrees => (Stmt.resolve_cls_eq_ok.1 h).1

/-- Statements that passed the walk, in a ledger that has their entries. -/
theorem Stmt.resolvedAll_of_resolve {l : Ledger} :
    ∀ (ss : List Stmt) {scopes after : Scopes} {entries : List Entry}, Stmt.ShapedAll ss →
      scopes.Settled → Stmt.resolveAll scopes ss = .ok (after, entries) → (Stmt.idsAll ss).Nodup →
      Agrees l entries (Stmt.selfWritesAll (!scopes.isEmpty) ss) (Stmt.idsAll ss) →
      Stmt.ResolvedAll l scopes ss after
  | [], scopes, after, entries, _, _, h, _, _ => (Stmt.resolveAll_nil_eq_ok.1 h).1
  | s :: ss, scopes, after, entries, ⟨hshape, hshapes⟩, hs, h, hn, agrees => by
      obtain ⟨between, _, _, hfirst, hothers, rfl⟩ := Stmt.resolveAll_cons_eq_ok.1 h
      simp only [idsAll, accessesAll, selfWritesAll, List.map_append] at hn agrees
      obtain ⟨agreesS, agreesSS⟩ := agrees.of_append hn (Stmt.keys_of_resolve s hfirst)
        (Stmt.keys_of_resolveAll ss hothers) (Stmt.selfWrites_subset _ s)
        (Stmt.selfWritesAll_subset _ ss)
      obtain ⟨hnS, hnSS, -⟩ := List.nodup_append.1 hn
      have resolved := Stmt.resolved_of_resolve s hshape hs hfirst hnS agreesS
      obtain ⟨hs', same⟩ := resolved.settled hs
      exact ⟨between, resolved, Stmt.resolvedAll_of_resolve ss hshapes hs' hothers hnSS
        (by rw [same]; exact agreesSS)⟩

end

end Lox
