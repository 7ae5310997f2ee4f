import Lox.Proofs.Resolution.Walk

/-!
# Trees that a ledger is right about pass the walk

The walk only accepts trees that a ledger with its entries is right about.  The other way round, a
tree that a ledger is right about is accepted, and the ledger has just the entries of that walk on
the accesses of the tree.

This is what lets a program be resolved again in other company: behind another program, inside a
loop that is written in another way, or with other identities.  Being right about a tree is a
property of the ledger that carries over to such trees; being accepted, and with which entries,
follows from it here.

* `Resolution.Recorded` — a ledger has some entries, and no others on some identities.
* `Stmt.Resolved.accepted` — a statement that a ledger is right about.
-/

namespace Lox

open Resolution

variable {l : Ledger} {scopes after : Scopes}

/-- A ledger has the entries, and no others on the given identities. -/
structure Resolution.Recorded (l : Ledger) (ids : List NodeId) (entries : List Entry) : Prop where
  had : ∀ id distance, (id, distance) ∈ entries → l.distances[id]? = some distance
  others : ∀ id ∈ ids, ∀ distance, l.distances[id]? = some distance → (id, distance) ∈ entries

namespace Resolution.Recorded

variable {is js : List NodeId} {es fs : List Entry}

theorem nil : Recorded l [] [] :=
  ⟨by simp, by simp⟩

theorem append (h : Recorded l is es) (h' : Recorded l js fs) :
    Recorded l (is ++ js) (es ++ fs) := by
  refine ⟨fun id distance hmem => ?_, fun id hid distance hd => ?_⟩
  · rcases List.mem_append.1 hmem with hmem | hmem
    · exact h.had id distance hmem
    · exact h'.had id distance hmem
  · rcases List.mem_append.1 hid with hid | hid
    · exact List.mem_append_left _ (h.others id hid distance hd)
    · exact List.mem_append_right _ (h'.others id hid distance hd)

end Resolution.Recorded

/-! ## Expressions

An expression is only refused for a name that is pending. -/

mutual

/-- An expression that reads no pending variable is accepted. -/
theorem Expr.accepted : ∀ e : Expr,
    (∀ a ∈ e.accesses, a.assigns = false → scopes.isPending a.name.lexeme = false) →
      ∃ entries, e.resolve none scopes = .ok entries
  | .literal _, _ => ⟨_, rfl⟩
  | .group inner, h => Expr.accepted inner h
  | .unary _ operand, h => Expr.accepted operand h
  | .binary left _ right, h => by
      obtain ⟨hl, hr⟩ := List.forall_mem_append.1 h
      obtain ⟨first, hfirst⟩ := Expr.accepted left hl
      obtain ⟨second, hsecond⟩ := Expr.accepted right hr
      exact ⟨_, Expr.resolve_binary_eq_ok.2 ⟨_, _, hfirst, hsecond, rfl⟩⟩
  | .logical left _ right, h => by
      obtain ⟨hl, hr⟩ := List.forall_mem_append.1 h
      obtain ⟨first, hfirst⟩ := Expr.accepted left hl
      obtain ⟨second, hsecond⟩ := Expr.accepted right hr
      exact ⟨_, Expr.resolve_logical_eq_ok.2 ⟨_, _, hfirst, hsecond, rfl⟩⟩
  | .read id name, h =>
      ⟨_, Expr.resolve_read_eq_ok.2 ⟨h _ List.mem_cons_self rfl, nofun, rfl⟩⟩
  | .assign id name value, h => by
      obtain ⟨entries, hv⟩ := Expr.accepted value (List.forall_mem_cons.1 h).2
      exact ⟨_, Expr.resolve_assign_eq_ok.2 ⟨entries, hv, rfl⟩⟩
  | .call callee _ arguments, h => by
      obtain ⟨hc, ha⟩ := List.forall_mem_append.1 h
      obtain ⟨first, hfirst⟩ := Expr.accepted callee hc
      obtain ⟨second, hsecond⟩ := Expr.acceptedAll arguments ha
      exact ⟨_, Expr.resolve_call_eq_ok.2 ⟨_, _, hfirst, hsecond, rfl⟩⟩
  | .get object _, h => Expr.accepted object h
  | .set object _ value, h => by
      obtain ⟨ho, hv⟩ := List.forall_mem_append.1 h
      obtain ⟨first, hfirst⟩ := Expr.accepted value hv
      obtain ⟨second, hsecond⟩ := Expr.accepted object ho
      exact ⟨_, Expr.resolve_set_eq_ok.2 ⟨_, _, hfirst, hsecond, rfl⟩⟩

theorem Expr.acceptedAll : ∀ es : List Expr,
    (∀ a ∈ Expr.accessesAll es, a.assigns = false → scopes.isPending a.name.lexeme = false) →
      ∃ entries, Expr.resolveAll none scopes es = .ok entries
  | [], _ => ⟨_, rfl⟩
  | e :: es, h => by
      obtain ⟨he, hes⟩ := List.forall_mem_append.1 h
      obtain ⟨first, hfirst⟩ := Expr.accepted e he
      obtain ⟨second, hsecond⟩ := Expr.acceptedAll es hes
      exact ⟨_, Expr.resolveAll_cons_eq_ok.2 ⟨_, _, hfirst, hsecond, rfl⟩⟩

end

/-- An expression that a ledger is right about. -/
theorem Expr.Resolved.accepted {e : Expr} (h : e.Resolved l scopes) :
    ∃ entries, e.resolve none scopes = .ok entries ∧ Recorded l e.ids entries := by
  obtain ⟨entries, he⟩ := e.accepted fun a ha => (h a ha).readable
  have recorded := e.entries_of_resolve he
  refine ⟨entries, he, fun id distance hmem => ?_, fun id hid distance hd => ?_⟩
  · obtain ⟨a, ha, rfl, found⟩ := (recorded.mem _).1 hmem
    exact (h a ha).distance.trans found
  · obtain ⟨a, ha, rfl⟩ := List.mem_map.1 hid
    exact (recorded.mem _).2 ⟨a, ha, rfl, (h a ha).distance.symm.trans hd⟩

theorem Expr.Resolved.acceptedOption {e? : Option Expr} (h : ∀ e ∈ e?, e.Resolved l scopes) :
    ∃ entries, Expr.resolveOption none scopes e? = .ok entries ∧
      Recorded l ((e?.toList.flatMap Expr.accesses).map Access.id) entries := by
  cases e? with
  | none => exact ⟨_, rfl, .nil⟩
  | some e => simpa [Expr.resolveOption, Expr.ids] using (h e rfl).accepted

/-! ## Statements

By recursion on the statement, with the scopes that the ledger is right about. -/

namespace Stmt

mutual

/-- **A statement that a ledger is right about is accepted**, unless it declares a global. -/
theorem Resolved.accepted : ∀ (s : Stmt) {scopes after : Scopes}, s.Shaped →
    (scopes = [] → s.declares = false) → s.Resolved l scopes after →
      ∃ entries, s.resolve scopes = .ok (after, entries) ∧ Recorded l s.ids entries
  | .expression e, _, _, _, _, ⟨he, rfl⟩ => by
      obtain ⟨entries, hr, recorded⟩ := he.accepted
      exact ⟨entries, resolve_expression_eq_ok.2 ⟨hr, rfl⟩, recorded⟩
  | .print e, _, _, _, _, ⟨he, rfl⟩ => by
      obtain ⟨entries, hr, recorded⟩ := he.accepted
      exact ⟨entries, resolve_print_eq_ok.2 ⟨hr, rfl⟩, recorded⟩
  | .var name initializer, scopes, _, _, inside, ⟨declared, hd, hi, rfl⟩ => by
      obtain ⟨entries, hr, recorded⟩ := Expr.Resolved.acceptedOption hi
      have enclosed : scopes.isEmpty = false := by
        cases scopes with
        | nil => cases inside rfl
        | cons => rfl
      refine ⟨entries, resolve_var_eq_ok.2 ⟨declared, hd, ?_, rfl⟩, recorded⟩
      rwa [enclosed]
  | .block body, _, _, shaped, _, ⟨⟨inner, hb⟩, rfl⟩ => by
      obtain ⟨entries, hr, recorded⟩ :=
        ResolvedAll.accepted body shaped (by simp [Scopes.openBlock]) hb
      exact ⟨entries, resolve_block_eq_ok.2 ⟨⟨_, hr⟩, rfl⟩, recorded⟩
  | .branch condition yes none, _, _, ⟨nothing, shaped⟩, _, ⟨hc, hy, rfl⟩ => by
      obtain ⟨first, hfirst, recorded⟩ := hc.accepted
      obtain ⟨second, hsecond, recorded'⟩ := Resolved.accepted yes shaped (fun _ => nothing) hy
      refine ⟨_, resolve_ifOnly_eq_ok.2 ⟨_, _, hfirst, hsecond, rfl⟩, ?_⟩
      simp only [ids, accesses, List.map_append]
      exact recorded.append recorded'
  | .branch condition yes (some no), _, _, ⟨⟨nothingY, shapedY⟩, nothingN, shapedN⟩, _,
      ⟨hc, hy, hn, rfl⟩ => by
      obtain ⟨first, hfirst, recorded⟩ := hc.accepted
      obtain ⟨second, hsecond, recorded'⟩ := Resolved.accepted yes shapedY (fun _ => nothingY) hy
      obtain ⟨third, hthird, recorded''⟩ := Resolved.accepted no shapedN (fun _ => nothingN) hn
      refine ⟨_, resolve_ifElse_eq_ok.2 ⟨_, _, _, _, hfirst, hsecond, hthird, rfl⟩, ?_⟩
      simp only [ids, accesses, List.map_append]
      exact (recorded.append recorded').append recorded''
  | .loop condition body, _, _, ⟨nothing, shaped⟩, _, ⟨hc, hb, rfl⟩ => by
      obtain ⟨first, hfirst, recorded⟩ := hc.accepted
      obtain ⟨second, hsecond, recorded'⟩ := Resolved.accepted body shaped (fun _ => nothing) hb
      refine ⟨_, resolve_loop_eq_ok.2 ⟨_, _, hfirst, hsecond, rfl⟩, ?_⟩
      simp only [ids, accesses, List.map_append]
      exact recorded.append recorded'
  | .function name parameters body, _, after, shaped, _, ⟨hn, opened, inner, ho, hb⟩ => by
      obtain ⟨t, rfl, -⟩ := Scopes.openFunction_eq_ok ho
      obtain ⟨entries, hr, recorded⟩ := ResolvedAll.accepted body shaped (by simp) hb
      exact ⟨entries, resolve_function_eq_ok.2 ⟨hn, _, _, ho, hr⟩, recorded⟩
  | .ret keyword value, scopes, _, _, _, ⟨hf, hv, rfl⟩ => by
      obtain ⟨entries, hr, recorded⟩ := Expr.Resolved.acceptedOption hv
      exact ⟨entries, resolve_ret_eq_ok.2 ⟨hf, hr, rfl⟩, recorded⟩
  | .cls name, _, _, _, _, h => ⟨_, resolve_cls_eq_ok.2 ⟨h, rfl⟩, .nil⟩

theorem ResolvedAll.accepted : ∀ (ss : List Stmt) {scopes after : Scopes}, Stmt.ShapedAll ss →
    scopes ≠ [] → Stmt.ResolvedAll l scopes ss after →
      ∃ entries, Stmt.resolveAll scopes ss = .ok (after, entries) ∧
        Recorded l (Stmt.idsAll ss) entries
  | [], _, _, _, _, rfl => ⟨_, rfl, .nil⟩
  | s :: ss, scopes, _, ⟨shaped, shapedAll⟩, inside, ⟨between, hs, hss⟩ => by
      obtain ⟨first, hfirst, recorded⟩ :=
        Resolved.accepted s shaped (fun outside => absurd outside inside) hs
      have inside' : between ≠ [] := by
        intro outside
        apply inside
        rw [← List.length_eq_zero_iff, ← hs.length, outside, List.length_nil]
      obtain ⟨others, hothers, recorded'⟩ := ResolvedAll.accepted ss shapedAll inside' hss
      refine ⟨_, resolveAll_cons_eq_ok.2 ⟨_, _, _, hfirst, hothers, rfl⟩, ?_⟩
      simp only [idsAll, accessesAll, List.map_append]
      exact recorded.append recorded'

end

end Stmt

end Lox
