import Mathlib.Logic.Equiv.Basic
import Lox.Proofs.Parse.Shape
import Lox.Proofs.Renaming.Names
import Lox.Proofs.Resolution.Walk

/-!
# The walk over a renamed program

Inside of the scope that the renamed declaration stands in, the open scopes of the two programs
declare the same names, but for the renamed one.  No scope declares the other name, so an access
finds its declaration at the same distance.

Two walks are made side by side, over a program and over the program in which one declaration and
its accesses have another name.  They are compared by their open scopes: `Scopes.rename` says what
the scopes of the first look like in the second.  As long as the declaration is not in sight they
are the same.  From its scope on inwards, `depth` says how far out that scope is, and it alone has
the two names exchanged.  An exchange, and not a replacement, so that the comparison works for every
name; that no scope declares the other name is a hypothesis throughout, `Scopes.Avoid`.

* `Scopes.rename` — the open scopes around a place in the renamed program.
* `Scopes.distance?_rename`, `Scopes.declare_rename`, … — the operations on open scopes.
* `Stmt.resolve_rename` — the walk inside of the scope of the declaration.
* `resolve_renames` — **the walk over a renamed program records the same**.
-/

namespace Lox

open Resolution

namespace Resolution

variable (x y : String)

/-! ## Open scopes

What a scope declares, and at which distance a name is found, before and after the renaming. -/

/-- A scope with the other name. -/
def Scope.rename (s : Scope) : Scope :=
  { s with names := s.names.map fun (name, readable) => (Equiv.swap x y name, readable) }

namespace Scope

variable {x y} {s : Scope} {z : String}

/-- A scope declares the exchanged name as it declared the name. -/
theorem lookup_rename : (s.rename x y).names.lookup (Equiv.swap x y z) = s.names.lookup z := by
  obtain ⟨names, inFunction⟩ := s
  show (names.map _).lookup _ = names.lookup z
  induction names with
  | nil => rfl
  | cons entry names ih =>
      obtain ⟨name, readable⟩ := entry
      have same : (Equiv.swap x y z == Equiv.swap x y name) = (z == name) := by
        rw [Bool.eq_iff_iff]
        simp
      rw [List.map_cons, List.lookup_cons, List.lookup_cons, same, ih]

/-- The same, for whether it declares it. -/
theorem declares_rename : (s.rename x y).declares (Equiv.swap x y z) = s.declares z := by
  rw [declares, lookup_rename, declares]

/-- What a scope does not declare it does not declare with the other name in it either. -/
theorem not_declares_rename (hz : s.declares z = false) (hzy : z ≠ y)
    (hy : s.declares y = false) : (s.rename x y).declares z = false := by
  rw [← Equiv.swap_apply_self x y z, declares_rename]
  by_cases hx : z = x
  · rwa [hx, Equiv.swap_apply_left]
  · rwa [Equiv.swap_apply_of_ne_of_ne hx hzy]

end Scope

namespace Scopes

/-- The open scopes with the other name in the one at a distance. -/
def rename : Option Nat → Scopes → Scopes
  | some 0, s :: outer => s.rename x y :: outer
  | some (depth + 1), s :: outer => s :: rename (some depth) outer
  | _, scopes => scopes

/-- The name by which the renamed program accesses a variable. -/
def called (depth : Option Nat) (scopes : Scopes) (z : String) : String :=
  if depth.isSome ∧ scopes.distance? z = depth then Equiv.swap x y z else z

/-- No open scope declares a name. -/
def Avoid (scopes : Scopes) : Prop :=
  ∀ s ∈ scopes, s.declares y = false

variable {x y} {depth : Option Nat} {scopes after : Scopes} {s : Scope} {outer : Scopes}
  {z : String} {name : Token}

/-- As long as the declaration is not in sight nothing is renamed. -/
theorem rename_none : rename x y none scopes = scopes := by
  cases scopes <;> rfl

/-- There is nothing to rename among the globals. -/
theorem rename_nil : rename x y depth [] = [] := by
  match depth with
  | none | some 0 | some (_ + 1) => rfl

/-- Nor has an access another name then. -/
theorem called_none : called x y none scopes z = z :=
  if_neg (by simp)

theorem called_nil : called x y depth [] z = z := by
  refine if_neg fun ⟨inside, found⟩ => ?_
  rw [← found, distance?_nil] at inside
  cases inside

/-- A scope that declares neither the name nor the other one does not declare what the access is
called. -/
theorem not_declares_called (h : s.declares z = false) (hz : z ≠ y) (hy : s.declares y = false) :
    s.declares (called x y depth scopes z) = false := by
  unfold called
  split
  · by_cases hx : z = x
    · rwa [hx, Equiv.swap_apply_left]
    · rwa [Equiv.swap_apply_of_ne_of_ne hx hz]
  · exact h

/-- In the scope of the declaration a name that it declares is exchanged. -/
theorem called_zero_of_declares (h : s.declares z = true) :
    called x y (some 0) (s :: outer) z = Equiv.swap x y z :=
  if_pos ⟨rfl, by rw [distance?_cons, h, if_pos rfl]⟩

/-- Beyond it a name is what it was. -/
theorem called_zero_of_not_declares (h : s.declares z = false) :
    called x y (some 0) (s :: outer) z = z := by
  refine if_neg fun ⟨_, found⟩ => ?_
  rw [distance?_cons, h, if_neg Bool.false_ne_true] at found
  simp at found

/-- A name that an inner scope declares is not the one that is renamed. -/
theorem called_succ_of_declares {d : Nat} (h : s.declares z = true) :
    called x y (some (d + 1)) (s :: outer) z = z := by
  refine if_neg fun ⟨_, found⟩ => ?_
  rw [distance?_cons, h, if_pos rfl] at found
  simp at found

/-- Any other is looked for further out. -/
theorem called_succ_of_not_declares {d : Nat} (h : s.declares z = false) :
    called x y (some (d + 1)) (s :: outer) z = called x y (some d) outer z := by
  unfold called
  rw [distance?_cons, h, if_neg Bool.false_ne_true]
  simp

/-- **An access finds its declaration at the same distance.** -/
theorem distance?_rename (hz : z ≠ y) (avoid : Avoid y scopes) :
    (rename x y depth scopes).distance? (called x y depth scopes z) = scopes.distance? z := by
  induction scopes generalizing depth with
  | nil => rw [rename_nil, distance?_nil, distance?_nil]
  | cons s outer ih =>
      obtain ⟨hs, houter⟩ := List.forall_mem_cons.1 avoid
      match depth, hd : s.declares z with
      | none, _ => rw [rename_none, called_none]
      | some 0, true =>
          rw [called_zero_of_declares hd, rename, distance?_cons, distance?_cons,
            Scope.declares_rename, hd, if_pos rfl, if_pos rfl]
      | some 0, false =>
          rw [called_zero_of_not_declares hd, rename, distance?_cons, distance?_cons,
            Scope.not_declares_rename hd hz hs, hd]
      | some (d + 1), true =>
          rw [called_succ_of_declares hd, rename, distance?_cons, distance?_cons, hd, if_pos rfl,
            if_pos rfl]
      | some (d + 1), false =>
          have other : s.declares (called x y (some d) outer z) = false :=
            not_declares_called hd hz hs
          rw [called_succ_of_not_declares hd, rename, distance?_cons, distance?_cons, other, hd,
            ih houter]

/-- It may be read if it could be read before. -/
theorem isPending_rename (hz : z ≠ y) (avoid : Avoid y scopes) :
    (rename x y depth scopes).isPending (called x y depth scopes z) = scopes.isPending z := by
  cases scopes with
  | nil => rw [rename_nil, isPending_nil, isPending_nil]
  | cons s outer =>
      obtain ⟨hs, -⟩ := List.forall_mem_cons.1 avoid
      have absent {t : Scope} {u : String} {ts : Scopes} (h : t.declares u = false) :
          isPending (t :: ts) u = false := by
        have none : t.names.lookup u = none := by simpa [Scope.declares] using h
        simp [isPending, none]
      rcases depth with _ | _ | d
      · rw [rename_none, called_none]
      · cases hd : s.declares z with
        | true => rw [called_zero_of_declares hd, rename, isPending, isPending, Scope.lookup_rename]
        | false =>
            rw [called_zero_of_not_declares hd, rename, absent (Scope.not_declares_rename hd hz hs),
              absent hd]
      · cases hd : s.declares z with
        | true => rw [called_succ_of_declares hd, rename, isPending, isPending]
        | false =>
            have other : s.declares (called x y (some d) outer z) = false :=
              not_declares_called hd hz hs
            rw [called_succ_of_not_declares hd, rename, absent other, absent hd]

/-! ## Declarations

Each operation on open scopes does to renamed scopes what it does to scopes. -/

/-- A token that has not the other name has the exchanged one. -/
theorem lexeme_rename {t : Token} (h : t.lexeme ≠ y) :
    (t.rename x y).lexeme = Equiv.swap x y t.lexeme := by
  unfold Token.rename
  split
  next hx => rw [hx, Equiv.swap_apply_left]
  next hx => rw [Equiv.swap_apply_of_ne_of_ne hx h]

theorem declare_rename (h : scopes.declare name = .ok after) (hn : name.lexeme ≠ y) :
    (rename x y depth scopes).declare (name.renameDeclared x y depth) =
      .ok (rename x y depth after) := by
  cases scopes with
  | nil =>
      cases h
      rw [rename_nil, declare_nil]
  | cons s outer =>
      obtain ⟨hs, rfl⟩ := declare_cons_eq_ok h
      match depth with
      | none =>
          rw [rename_none, rename_none]
          exact declare_cons hs
      | some 0 =>
          have other : (s.rename x y).declares (name.rename x y).lexeme = false := by
            rw [lexeme_rename hn, Scope.declares_rename, hs]
          refine (declare_cons other).trans ?_
          rw [lexeme_rename hn]
          rfl
      | some (d + 1) => exact declare_cons hs

theorem define_rename (hn : name.lexeme ≠ y) :
    (rename x y depth scopes).define (name.renameDeclared x y depth) =
      rename x y depth (scopes.define name) := by
  cases scopes with
  | nil => rw [rename_nil, define_nil, define_nil, rename_nil]
  | cons s outer =>
      match depth with
      | none => rw [rename_none, rename_none]; rfl
      | some 0 =>
          show _ :: _ = _ :: _
          rw [Token.renameDeclared, if_pos rfl, lexeme_rename hn]
          rfl
      | some (d + 1) => rfl

theorem introduce_rename (h : scopes.introduce name = .ok after) (hn : name.lexeme ≠ y) :
    (rename x y depth scopes).introduce (name.renameDeclared x y depth) =
      .ok (rename x y depth after) := by
  obtain ⟨declared, hd, rfl⟩ := introduce_eq_ok_iff.1 h
  exact introduce_eq_ok_iff.2 ⟨_, declare_rename hd hn, (define_rename hn).symm⟩

theorem introduceAll_rename {parameters : List Token}
    (h : parameters.foldlM introduce scopes = .ok after)
    (hn : ∀ p ∈ parameters, p.lexeme ≠ y) :
    (parameters.map (Token.renameDeclared x y depth)).foldlM introduce (rename x y depth scopes) =
      .ok (rename x y depth after) := by
  induction parameters generalizing scopes with
  | nil =>
      cases introduceAll_nil_eq_ok.1 h
      rfl
  | cons p ps ih =>
      obtain ⟨hp, hps⟩ := List.forall_mem_cons.1 hn
      obtain ⟨next, hnext, h⟩ := introduceAll_cons_eq_ok.1 h
      rw [List.map_cons]
      exact introduceAll_cons_eq_ok.2 ⟨_, introduce_rename hnext hp, ih h hps⟩

/-- Whether a function is around does not depend on names. -/
theorem inFunction_rename : (rename x y depth scopes).inFunction = scopes.inFunction := by
  cases scopes with
  | nil => rw [rename_nil]
  | cons s outer =>
      match depth with
      | none | some 0 | some (d + 1) => rfl

/-- A block puts the scope of the declaration one further out. -/
theorem openBlock_rename :
    (rename x y depth scopes).openBlock =
      rename x y (depth.map (· + 1)) scopes.openBlock := by
  rw [openBlock, inFunction_rename]
  match depth with
  | none => rw [rename_none]; rfl
  | some d => rfl

/-- A function of the scope of the declaration has another name. -/
theorem renameDeclared_of_ne {t : Token} (h : depth = some 0 → t.lexeme ≠ x) :
    t.renameDeclared x y depth = t := by
  unfold Token.renameDeclared Token.rename
  split
  next inside => rw [if_neg (h inside)]
  next => rfl

/-- A name that is not renamed is introduced as it was. -/
theorem introduce_rename_of_ne (h : scopes.introduce name = .ok after) (hn : name.lexeme ≠ y)
    (hx : depth = some 0 → name.lexeme ≠ x) :
    (rename x y depth scopes).introduce name = .ok (rename x y depth after) := by
  have walked : (rename x y depth scopes).introduce (name.renameDeclared x y depth) = _ :=
    introduce_rename h hn
  rwa [renameDeclared_of_ne hx] at walked

/-- The parameters of a function inside keep their names. -/
theorem openFunction_rename {parameters : List Token}
    (h : scopes.openFunction parameters = .ok after) (hn : ∀ p ∈ parameters, p.lexeme ≠ y) :
    (rename x y depth scopes).openFunction parameters =
      .ok (rename x y (depth.map (· + 1)) after) := by
  have walked : (parameters.map (Token.renameDeclared x y (depth.map (· + 1)))).foldlM introduce
      (rename x y (depth.map (· + 1)) ({ inFunction := true } :: scopes)) = _ :=
    introduceAll_rename h hn
  have same : parameters.map (Token.renameDeclared x y (depth.map (· + 1))) = parameters :=
    (List.map_congr_left fun p _ => renameDeclared_of_ne (by simp)).trans (List.map_id _)
  rw [same] at walked
  refine Eq.trans ?_ walked
  match depth with
  | none => rw [rename_none]; rfl
  | some d => rfl

/-- The parameters of a function, one of which may be the renamed one. -/
theorem openFunction_map_rename {parameters : List Token}
    (h : scopes.openFunction parameters = .ok after) (hn : ∀ p ∈ parameters, p.lexeme ≠ y) :
    scopes.openFunction (parameters.map (Token.rename x y)) =
      .ok (rename x y (some 0) after) := by
  have walked : (parameters.map (Token.renameDeclared x y (some 0))).foldlM introduce
      (rename x y (some 0) ({ inFunction := true } :: scopes)) = _ :=
    introduceAll_rename h hn
  have same : Token.renameDeclared x y (some 0) = Token.rename x y :=
    funext fun _ => if_pos rfl
  rwa [same] at walked

/-- Whether all scopes are closed does not depend on names. -/
theorem isEmpty_rename : (rename x y depth scopes).isEmpty = scopes.isEmpty := by
  cases scopes with
  | nil => rw [rename_nil]
  | cons s outer =>
      match depth with
      | none | some 0 | some (d + 1) => rfl

/-- The name that an initializer may read although it is being declared: there is one only outside
of all scopes. -/
theorem own?_declare (h : scopes.declare name = .ok after) :
    (if scopes.isEmpty then some name.lexeme else none) = none ∨ after = [] := by
  cases scopes with
  | nil =>
      cases h
      exact .inr rfl
  | cons => exact .inl rfl

/-- Renaming inside of a scope leaves that name as it is. -/
theorem own?_rename (inside : depth = some 0 → scopes ≠ []) :
    (if (rename x y depth scopes).isEmpty then
        some (name.renameDeclared x y depth).lexeme else none) =
      if scopes.isEmpty then some name.lexeme else none := by
  rw [isEmpty_rename, Token.renameDeclared]
  split
  next empty => rw [if_neg fun h => inside h (List.isEmpty_iff.1 empty)]
  next => rfl

/-! ### Names that stay free

No operation makes a scope declare the other name, as no declaration of the program has it. -/

theorem Avoid.declare (avoid : Avoid y scopes) (h : scopes.declare name = .ok after)
    (hn : name.lexeme ≠ y) : Avoid y after := by
  cases scopes with
  | nil =>
      cases h
      exact avoid
  | cons s outer =>
      obtain ⟨-, rfl⟩ := declare_cons_eq_ok h
      obtain ⟨hs, houter⟩ := List.forall_mem_cons.1 avoid
      exact List.forall_mem_cons.2 ⟨by simp [Scope.declares_add, hn.symm, hs], houter⟩

theorem Avoid.define (avoid : Avoid y scopes) (hn : name.lexeme ≠ y) :
    Avoid y (scopes.define name) := by
  cases scopes with
  | nil => exact avoid
  | cons s outer =>
      obtain ⟨hs, houter⟩ := List.forall_mem_cons.1 avoid
      rw [define_cons]
      exact List.forall_mem_cons.2 ⟨by simp [Scope.declares_add, hn.symm, hs], houter⟩

theorem Avoid.introduce (avoid : Avoid y scopes) (h : scopes.introduce name = .ok after)
    (hn : name.lexeme ≠ y) : Avoid y after := by
  obtain ⟨declared, hd, rfl⟩ := introduce_eq_ok_iff.1 h
  exact (avoid.declare hd hn).define hn

/-- Not when parameters are introduced. -/
theorem Avoid.introduceAll {parameters : List Token} (avoid : Avoid y scopes)
    (h : parameters.foldlM Scopes.introduce scopes = .ok after)
    (hn : ∀ p ∈ parameters, p.lexeme ≠ y) : Avoid y after := by
  induction parameters generalizing scopes with
  | nil =>
      cases introduceAll_nil_eq_ok.1 h
      exact avoid
  | cons p ps ih =>
      obtain ⟨hp, hps⟩ := List.forall_mem_cons.1 hn
      obtain ⟨next, hnext, h⟩ := introduceAll_cons_eq_ok.1 h
      exact ih (avoid.introduce hnext hp) h hps

/-- A scope that was just opened declares nothing. -/
theorem Avoid.opened (avoid : Avoid y scopes) (inFunction : Bool) :
    Avoid y ({ inFunction := inFunction } :: scopes) :=
  List.forall_mem_cons.2 ⟨rfl, avoid⟩

end Scopes

end Resolution

/-! ## Expressions

An access is renamed if the table has it at the distance of the renamed scope.  That is the case
exactly if the walk finds the renamed declaration. -/

section
variable {l : Ledger} {x y : String} {depth : Option Nat} {scopes : Scopes}

/-- What an access is called afterwards is what its name means in the open scopes. -/
theorem Access.Resolved.called {id : NodeId} {name : Token} {assigns : Bool}
    (h : Access.Resolved l scopes ⟨id, name, assigns⟩) (hn : name.lexeme ≠ y) :
    (name.renameAccess l.distances x y depth id).lexeme =
      scopes.called x y depth name.lexeme := by
  have distance : l.distances[id]? = scopes.distance? name.lexeme := h.distance
  unfold Token.renameAccess Scopes.called
  rw [distance]
  split
  · exact Scopes.lexeme_rename hn
  · rfl

theorem Access.Resolved.entry {id : NodeId} {name : Token} {assigns : Bool}
    (h : Access.Resolved l scopes ⟨id, name, assigns⟩) (hn : name.lexeme ≠ y)
    (avoid : scopes.Avoid y) :
    (scopes.rename x y depth).entry id (name.renameAccess l.distances x y depth id).lexeme =
      scopes.entry id name.lexeme := by
  rw [h.called hn, Scopes.entry, Scopes.distance?_rename hn avoid, Scopes.entry]

variable {own? : Option String}

mutual

/-- The walk over a renamed expression records the same. -/
theorem Expr.resolve_rename (top : own? = none ∨ scopes = []) (avoid : scopes.Avoid y) :
    ∀ (e : Expr) {entries : List Entry},
    e.resolve own? scopes = .ok entries → e.Resolved l scopes →
    (∀ a ∈ e.accesses, a.name.lexeme ≠ y) →
      (e.rename l.distances x y depth).resolve own? (scopes.rename x y depth) = .ok entries
  | .literal _, _, h, _, _ => h
  | .group inner, _, h, resolved, hn => Expr.resolve_rename top avoid inner h resolved hn
  | .unary _ operand, _, h, resolved, hn => Expr.resolve_rename top avoid operand h resolved hn
  | .binary left _ right, _, h, resolved, hn => by
      obtain ⟨_, _, hl, hr, rfl⟩ := Expr.resolve_binary_eq_ok.1 h
      obtain ⟨resolvedL, resolvedR⟩ := List.forall_mem_append.1 resolved
      obtain ⟨hnL, hnR⟩ := List.forall_mem_append.1 hn
      exact Expr.resolve_binary_eq_ok.2 ⟨_, _, Expr.resolve_rename top avoid left hl resolvedL hnL,
        Expr.resolve_rename top avoid right hr resolvedR hnR, rfl⟩
  | .logical left _ right, _, h, resolved, hn => by
      obtain ⟨_, _, hl, hr, rfl⟩ := Expr.resolve_logical_eq_ok.1 h
      obtain ⟨resolvedL, resolvedR⟩ := List.forall_mem_append.1 resolved
      obtain ⟨hnL, hnR⟩ := List.forall_mem_append.1 hn
      exact Expr.resolve_logical_eq_ok.2 ⟨_, _, Expr.resolve_rename top avoid left hl resolvedL hnL,
        Expr.resolve_rename top avoid right hr resolvedR hnR, rfl⟩
  | .read id name, _, h, resolved, hn => by
      obtain ⟨readable, other, rfl⟩ := Expr.resolve_read_eq_ok.1 h
      obtain ⟨access, -⟩ := List.forall_mem_cons.1 resolved
      obtain ⟨hn, -⟩ := List.forall_mem_cons.1 hn
      refine Expr.resolve_read_eq_ok.2 ⟨?_, ?_, (access.entry hn avoid).symm⟩
      · rw [access.called hn, Scopes.isPending_rename hn avoid, readable]
      · rw [access.called hn]
        rcases top with rfl | rfl
        · nofun
        · rwa [Scopes.called_nil]
  | .assign id name value, _, h, resolved, hn => by
      obtain ⟨_, hv, rfl⟩ := Expr.resolve_assign_eq_ok.1 h
      obtain ⟨access, resolved⟩ := List.forall_mem_cons.1 resolved
      obtain ⟨hn, hnV⟩ := List.forall_mem_cons.1 hn
      refine Expr.resolve_assign_eq_ok.2
        ⟨_, Expr.resolve_rename top avoid value hv resolved hnV, ?_⟩
      rw [access.entry hn avoid]
  | .call callee _ arguments, _, h, resolved, hn => by
      obtain ⟨_, _, hc, ha, rfl⟩ := Expr.resolve_call_eq_ok.1 h
      obtain ⟨resolvedC, resolvedA⟩ := List.forall_mem_append.1 resolved
      obtain ⟨hnC, hnA⟩ := List.forall_mem_append.1 hn
      exact Expr.resolve_call_eq_ok.2 ⟨_, _, Expr.resolve_rename top avoid callee hc resolvedC hnC,
        Expr.resolveAll_rename top avoid arguments ha resolvedA hnA, rfl⟩
  | .get object _, _, h, resolved, hn => Expr.resolve_rename top avoid object h resolved hn
  | .set object _ value, _, h, resolved, hn => by
      obtain ⟨_, _, hv, ho, rfl⟩ := Expr.resolve_set_eq_ok.1 h
      obtain ⟨resolvedO, resolvedV⟩ := List.forall_mem_append.1 resolved
      obtain ⟨hnO, hnV⟩ := List.forall_mem_append.1 hn
      exact Expr.resolve_set_eq_ok.2 ⟨_, _, Expr.resolve_rename top avoid value hv resolvedV hnV,
        Expr.resolve_rename top avoid object ho resolvedO hnO, rfl⟩

/-- The walk over a list of expressions. -/
theorem Expr.resolveAll_rename (top : own? = none ∨ scopes = []) (avoid : scopes.Avoid y) :
    ∀ (es : List Expr) {entries : List Entry},
    Expr.resolveAll own? scopes es = .ok entries →
    (∀ a ∈ Expr.accessesAll es, a.Resolved l scopes) →
    (∀ a ∈ Expr.accessesAll es, a.name.lexeme ≠ y) →
      Expr.resolveAll own? (scopes.rename x y depth) (Expr.renameAll l.distances x y depth es) =
        .ok entries
  | [], _, h, _, _ => h
  | e :: es, _, h, resolved, hn => by
      obtain ⟨_, _, he, hes, rfl⟩ := Expr.resolveAll_cons_eq_ok.1 h
      obtain ⟨resolvedE, resolvedES⟩ := List.forall_mem_append.1 resolved
      obtain ⟨hnE, hnES⟩ := List.forall_mem_append.1 hn
      exact Expr.resolveAll_cons_eq_ok.2 ⟨_, _, Expr.resolve_rename top avoid e he resolvedE hnE,
        Expr.resolveAll_rename top avoid es hes resolvedES hnES, rfl⟩

end

/-- The walk over an expression that may be missing. -/
theorem Expr.resolveOption_rename (top : own? = none ∨ scopes = []) (avoid : scopes.Avoid y)
    {e : Option Expr} {entries : List Entry} (h : Expr.resolveOption own? scopes e = .ok entries)
    (resolved : ∀ x ∈ e, x.Resolved l scopes)
    (hn : ∀ a ∈ e.toList.flatMap Expr.accesses, a.name.lexeme ≠ y) :
    Expr.resolveOption own? (scopes.rename x y depth)
      (e.map (Expr.rename l.distances x y depth)) = .ok entries := by
  cases e with
  | none => exact h
  | some e => exact Expr.resolve_rename top avoid e h (resolved e rfl) (by simpa using hn)

end

/-! ## Statements

Functions and classes keep their names, as they are values that print them.  So a function or class
must not be what is renamed, which is asked of the statements in the scope of the declaration. -/

/-- The name of a function or class that a statement declares. -/
def Stmt.callableName? : Stmt → Option String
  | .function name _ _ | .cls name => some name.lexeme
  | _ => none

/-- A statement that declares nothing is no callable of any name. -/
theorem Stmt.callableName?_ne {s : Stmt} {x : String} (plain : s.declares = false) :
    s.callableName? ≠ some x := by
  cases s with
  | function | cls => cases plain
  | _ => simp [callableName?]

/-- The walk and the ledger mean the same scopes after a statement. -/
theorem Stmt.Resolved.after_eq {l : Ledger} {s : Stmt} {scopes after after' : Scopes}
    {entries : List Entry} (shaped : s.Shaped) (h : s.resolve scopes = .ok (after, entries))
    (resolved : s.Resolved l scopes after') : after' = after := by
  cases s with
  | var name initializer =>
      obtain ⟨declared, hd, -, rfl⟩ := Stmt.resolve_var_eq_ok.1 h
      obtain ⟨declared', hd', -, rfl⟩ := resolved
      cases hd.symm.trans hd'
      rfl
  | function name parameters body =>
      cases (Stmt.resolve_function_eq_ok.1 h).1.symm.trans resolved.1
      rfl
  | cls name =>
      cases (Stmt.resolve_cls_eq_ok.1 h).1.symm.trans resolved
      rfl
  | expression | print | block | branch | loop | ret =>
      exact (resolved.after_of_not_declares rfl).trans (Stmt.after_of_resolve _ shaped rfl h).symm

/-- They also mean the same scopes around the body of a function. -/
theorem Stmt.Resolved.body_of_resolve {l : Ledger} {name : Token} {parameters : List Token}
    {body : List Stmt} {scopes after after' : Scopes} {entries : List Entry}
    (h : (Stmt.function name parameters body).resolve scopes = .ok (after, entries))
    (resolved : (Stmt.function name parameters body).Resolved l scopes after') :
    scopes.introduce name = .ok after ∧
      ∃ opened inner inner', after.openFunction parameters = .ok opened ∧
        Stmt.resolveAll opened body = .ok (inner, entries) ∧
        Stmt.ResolvedAll l opened body inner' := by
  obtain ⟨hname, opened, inner, ho, hb⟩ := Stmt.resolve_function_eq_ok.1 h
  obtain ⟨hname', opened', inner', ho', resolved⟩ := resolved
  cases hname.symm.trans hname'
  cases ho.symm.trans ho'
  exact ⟨hname, opened, inner, inner', ho, hb, resolved⟩

section
variable {l : Ledger} {x y : String}

mutual

/-- **The walk inside of the scope of the declaration records the same.**  Functions and classes of
that scope have other names. -/
theorem Stmt.resolve_rename : ∀ (s : Stmt) (depth : Option Nat) {scopes after after' : Scopes}
    {entries : List Entry}, s.resolve scopes = .ok (after, entries) → s.Resolved l scopes after' →
    s.Shaped → (∀ a ∈ s.accesses, a.name.lexeme ≠ y) → (∀ t ∈ s.declarations, t.lexeme ≠ y) →
    scopes.Avoid y → (depth = some 0 → scopes ≠ [] ∧ s.callableName? ≠ some x) →
      (s.rename l.distances x y depth).resolve (scopes.rename x y depth) =
        .ok (after.rename x y depth, entries) ∧ after.Avoid y
  | .expression e, depth, scopes, _, _, _, h, resolved, _, ha, _, avoid, _ => by
      obtain ⟨he, rfl⟩ := Stmt.resolve_expression_eq_ok.1 h
      exact ⟨Stmt.resolve_expression_eq_ok.2
        ⟨Expr.resolve_rename (.inl rfl) avoid e he resolved.1 ha, rfl⟩, avoid⟩
  | .print e, depth, scopes, _, _, _, h, resolved, _, ha, _, avoid, _ => by
      obtain ⟨he, rfl⟩ := Stmt.resolve_print_eq_ok.1 h
      exact ⟨Stmt.resolve_print_eq_ok.2
        ⟨Expr.resolve_rename (.inl rfl) avoid e he resolved.1 ha, rfl⟩, avoid⟩
  | .var name initializer, depth, scopes, _, _, _, h, resolved, _, ha, hd, avoid, hx => by
      obtain ⟨declared, hdeclared, hi, rfl⟩ := Stmt.resolve_var_eq_ok.1 h
      obtain ⟨_, hdeclared', resolved, -⟩ := resolved
      cases hdeclared.symm.trans hdeclared'
      have hn : name.lexeme ≠ y := hd name List.mem_cons_self
      have avoid' := avoid.declare hdeclared hn
      refine ⟨Stmt.resolve_var_eq_ok.2 ⟨_, Scopes.declare_rename hdeclared hn, ?_,
        (Scopes.define_rename hn).symm⟩, avoid'.define hn⟩
      rw [Scopes.own?_rename fun h => (hx h).1]
      exact Expr.resolveOption_rename (Scopes.own?_declare hdeclared) avoid' hi resolved ha
  | .block body, depth, scopes, _, _, _, h, resolved, shaped, ha, hd, avoid, _ => by
      obtain ⟨⟨inner, hb⟩, rfl⟩ := Stmt.resolve_block_eq_ok.1 h
      obtain ⟨⟨inner', resolved⟩, -⟩ := resolved
      have walked := (Stmt.resolveAll_rename body (depth.map (· + 1)) hb resolved shaped ha
        hd (avoid.opened _) (by simp)).1
      rw [← Scopes.openBlock_rename] at walked
      exact ⟨Stmt.resolve_block_eq_ok.2 ⟨⟨_, walked⟩, rfl⟩, avoid⟩
  | .branch condition yes none, depth, scopes, _, _, _, h, resolved, ⟨plain, shaped⟩, ha, hd, avoid,
      hx => by
      obtain ⟨_, _, hc, hy, rfl⟩ := Stmt.resolve_ifOnly_eq_ok.1 h
      obtain ⟨haC, haY⟩ := List.forall_mem_append.1 ha
      obtain ⟨walked, avoid'⟩ := Stmt.resolve_rename yes depth hy resolved.2.1 shaped haY hd
        avoid fun h => ⟨(hx h).1, Stmt.callableName?_ne plain⟩
      refine ⟨Stmt.resolve_ifOnly_eq_ok.2 ⟨_, _, ?_, walked, rfl⟩, avoid'⟩
      exact Expr.resolve_rename (.inl rfl) avoid condition hc resolved.1 haC
  | .branch condition yes (some no), depth, scopes, _, _, _, h, resolved,
      ⟨⟨plainY, shapedY⟩, plainN, shapedN⟩, ha, hd, avoid, hx => by
      obtain ⟨between, _, _, _, hc, hy, hno, rfl⟩ := Stmt.resolve_ifElse_eq_ok.1 h
      obtain rfl := Stmt.after_of_resolve yes shapedY plainY hy
      obtain ⟨haCY, haN⟩ := List.forall_mem_append.1 ha
      obtain ⟨haC, haY⟩ := List.forall_mem_append.1 haCY
      obtain ⟨hdY, hdN⟩ := List.forall_mem_append.1 hd
      obtain ⟨walkedY, -⟩ := Stmt.resolve_rename yes depth hy resolved.2.1 shapedY haY hdY
        avoid fun h => ⟨(hx h).1, Stmt.callableName?_ne plainY⟩
      obtain ⟨walkedN, avoid'⟩ := Stmt.resolve_rename no depth hno resolved.2.2.1 shapedN haN hdN
        avoid fun h => ⟨(hx h).1, Stmt.callableName?_ne plainN⟩
      refine ⟨Stmt.resolve_ifElse_eq_ok.2 ⟨_, _, _, _, ?_, walkedY, walkedN, rfl⟩, avoid'⟩
      exact Expr.resolve_rename (.inl rfl) avoid condition hc resolved.1 haC
  | .loop condition body, depth, scopes, _, _, _, h, resolved, ⟨plain, shaped⟩, ha, hd, avoid,
      hx => by
      obtain ⟨_, _, hc, hb, rfl⟩ := Stmt.resolve_loop_eq_ok.1 h
      obtain ⟨haC, haB⟩ := List.forall_mem_append.1 ha
      obtain ⟨walked, avoid'⟩ := Stmt.resolve_rename body depth hb resolved.2.1 shaped haB hd
        avoid fun h => ⟨(hx h).1, Stmt.callableName?_ne plain⟩
      refine ⟨Stmt.resolve_loop_eq_ok.2 ⟨_, _, ?_, walked, rfl⟩, avoid'⟩
      exact Expr.resolve_rename (.inl rfl) avoid condition hc resolved.1 haC
  | .function name parameters body, depth, scopes, _, _, _, h, resolved, shaped, ha, hd, avoid,
      hx => by
      obtain ⟨hname, opened, inner, inner', ho, hb, resolved⟩ := resolved.body_of_resolve h
      obtain ⟨hn, hd⟩ := List.forall_mem_cons.1 hd
      obtain ⟨hp, hdB⟩ := List.forall_mem_append.1 hd
      have avoid' := avoid.introduce hname hn
      have walkedB := (Stmt.resolveAll_rename body (depth.map (· + 1)) hb resolved shaped ha hdB
        ((avoid'.opened true).introduceAll ho hp) (by simp)).1
      have other : depth = some 0 → name.lexeme ≠ x := fun h same =>
        (hx h).2 (congrArg some same)
      exact ⟨Stmt.resolve_function_eq_ok.2 ⟨Scopes.introduce_rename_of_ne hname hn other, _, _,
        Scopes.openFunction_rename ho hp, walkedB⟩, avoid'⟩
  | .ret keyword value, depth, scopes, _, _, _, h, resolved, _, ha, _, avoid, _ => by
      obtain ⟨inFunction, hv, rfl⟩ := Stmt.resolve_ret_eq_ok.1 h
      refine ⟨Stmt.resolve_ret_eq_ok.2 ⟨Scopes.inFunction_rename.trans inFunction, ?_, rfl⟩, avoid⟩
      exact Expr.resolveOption_rename (.inl rfl) avoid hv resolved.2.1 ha
  | .cls name, depth, scopes, _, _, _, h, _, _, _, hd, avoid, hx => by
      obtain ⟨hname, rfl⟩ := Stmt.resolve_cls_eq_ok.1 h
      have hn : name.lexeme ≠ y := hd name List.mem_cons_self
      have other : depth = some 0 → name.lexeme ≠ x := fun h same =>
        (hx h).2 (congrArg some same)
      exact ⟨Stmt.resolve_cls_eq_ok.2 ⟨Scopes.introduce_rename_of_ne hname hn other, rfl⟩,
        avoid.introduce hname hn⟩

/-- The walk over a list of statements. -/
theorem Stmt.resolveAll_rename : ∀ (ss : List Stmt) (depth : Option Nat)
    {scopes after after' : Scopes} {entries : List Entry},
    Stmt.resolveAll scopes ss = .ok (after, entries) → Stmt.ResolvedAll l scopes ss after' →
    Stmt.ShapedAll ss → (∀ a ∈ Stmt.accessesAll ss, a.name.lexeme ≠ y) →
    (∀ t ∈ Stmt.declarationsAll ss, t.lexeme ≠ y) → scopes.Avoid y →
    (depth = some 0 → scopes ≠ [] ∧ ∀ s ∈ ss, s.callableName? ≠ some x) →
      Stmt.resolveAll (scopes.rename x y depth) (Stmt.renameAll l.distances x y depth ss) =
        .ok (after.rename x y depth, entries) ∧ after.Avoid y
  | [], depth, scopes, _, _, _, h, _, _, _, _, avoid, _ => by
      obtain ⟨rfl, rfl⟩ := Stmt.resolveAll_nil_eq_ok.1 h
      exact ⟨rfl, avoid⟩
  | s :: ss, depth, scopes, _, _, _, h, ⟨between', resolvedS, resolvedSS⟩, ⟨shapedS, shapedSS⟩, ha,
      hd, avoid, hx => by
      obtain ⟨between, _, _, hs, hss, rfl⟩ := Stmt.resolveAll_cons_eq_ok.1 h
      obtain rfl := resolvedS.after_eq shapedS hs
      have some : scopes ≠ [] → between' ≠ [] := fun h => by
        rwa [← List.length_pos_iff, resolvedS.length, List.length_pos_iff]
      obtain ⟨haS, haSS⟩ := List.forall_mem_append.1 ha
      obtain ⟨hdS, hdSS⟩ := List.forall_mem_append.1 hd
      obtain ⟨walkedS, avoid⟩ := Stmt.resolve_rename s depth hs resolvedS shapedS haS hdS
        avoid fun h => ⟨(hx h).1, (List.forall_mem_cons.1 (hx h).2).1⟩
      obtain ⟨walkedSS, avoid⟩ := Stmt.resolveAll_rename ss depth hss resolvedSS shapedSS
        haSS hdSS avoid fun h => ⟨some (hx h).1, (List.forall_mem_cons.1 (hx h).2).2⟩
      exact ⟨Stmt.resolveAll_cons_eq_ok.2 ⟨_, _, _, walkedS, walkedSS, rfl⟩, avoid⟩

end

end

/-! ## Names of one scope

A scope declares no name twice, so no function or class of the scope of the declaration has the name
of the variable or parameter that is renamed.
-/

/-- A function or class declares its name. -/
theorem Stmt.name?_of_callableName? {s : Stmt} {z : String} (h : s.callableName? = some z) :
    s.name? = some z := by
  cases s with
  | function | cls => exact h
  | _ => cases h

section
variable {l : Ledger} {s t : Stmt} {ss : List Stmt} {scope : Scope} {outer after : Scopes}
  {z : String}

/-- A name that is introduced was not declared before, and is all that has been added. -/
theorem Scopes.introduce_declares {name : Token}
    (h : Scopes.introduce (scope :: outer) name = .ok after) :
    scope.declares name.lexeme = false ∧ ∃ scope', after = scope' :: outer ∧
      ∀ u, scope'.declares u = (decide (u = name.lexeme) || scope.declares u) := by
  obtain ⟨absent, rfl⟩ := Scopes.introduce_cons_eq_ok h
  refine ⟨absent, _, rfl, fun u => ?_⟩
  rw [Scope.declares_add, Scope.declares_add]
  cases decide (u = name.lexeme) <;> rfl

/-- What a statement declares was not declared before; nothing is taken back. -/
theorem Stmt.Resolved.declares (h : s.Resolved l (scope :: outer) after) :
    (∀ u, s.name? = some u → scope.declares u = false) ∧ ∃ scope', after = scope' :: outer ∧
      ∀ u, scope'.declares u = (decide (s.name? = some u) || scope.declares u) := by
  have named {name : Token} (hs : s.name? = some name.lexeme)
      (h : Scopes.introduce (scope :: outer) name = .ok after) :
      (∀ u, s.name? = some u → scope.declares u = false) ∧ ∃ scope', after = scope' :: outer ∧
        ∀ u, scope'.declares u = (decide (s.name? = some u) || scope.declares u) := by
    obtain ⟨absent, scope', same, hscope'⟩ := Scopes.introduce_declares h
    refine ⟨fun u hu => ?_, scope', same, fun u => ?_⟩
    · rwa [← Option.some.inj (hs.symm.trans hu)]
    · rw [hscope', hs]
      simp [eq_comm]
  have nameless (hs : s.name? = none) (same : after = scope :: outer) :
      (∀ u, s.name? = some u → scope.declares u = false) ∧ ∃ scope', after = scope' :: outer ∧
        ∀ u, scope'.declares u = (decide (s.name? = some u) || scope.declares u) :=
    ⟨by simp [hs], scope, same, by simp [hs]⟩
  cases s with
  | var name initializer =>
      obtain ⟨declared, hd, -, rfl⟩ := h
      exact named rfl (Scopes.introduce_eq_ok_iff.2 ⟨declared, hd, rfl⟩)
  | function name parameters body => exact named rfl h.1
  | cls name => exact named rfl h
  | expression | print => exact nameless rfl h.2
  | block => exact nameless rfl h.2
  | loop | ret => exact nameless rfl h.2.2
  | branch condition yes no =>
      cases no with
      | none => exact nameless rfl h.2.2
      | some no => exact nameless rfl h.2.2.2

/-- A name that the scope has is not declared any more. -/
theorem Stmt.ResolvedAll.name?_ne (h : Stmt.ResolvedAll l (scope :: outer) ss after)
    (declared : scope.declares z = true) : ∀ s ∈ ss, s.name? ≠ some z := by
  induction ss generalizing scope with
  | nil => simp
  | cons s ss ih =>
      obtain ⟨between, hs, hss⟩ := h
      obtain ⟨absent, scope', rfl, hscope'⟩ := hs.declares
      refine List.forall_mem_cons.2 ⟨fun same => ?_, ih hss ?_⟩
      · rw [absent z same] at declared
        cases declared
      · rw [hscope', declared, Bool.or_true]

theorem Stmt.ResolvedAll.eq_of_name? (h : Stmt.ResolvedAll l (scope :: outer) ss after)
    (hs : s ∈ ss) (ht : t ∈ ss) (hsz : s.name? = some z) (htz : t.name? = some z) : s = t := by
  induction ss generalizing scope with
  | nil => cases hs
  | cons r ss ih =>
      obtain ⟨between, hr, hss⟩ := h
      obtain ⟨-, scope', rfl, hscope'⟩ := hr.declares
      have once (hrz : r.name? = some z) : ∀ s ∈ ss, s.name? ≠ some z :=
        hss.name?_ne (by rw [hscope', hrz]; simp)
      rcases List.mem_cons.1 hs with rfl | inS <;> rcases List.mem_cons.1 ht with rfl | inT
      · rfl
      · exact absurd htz (once hsz t inT)
      · exact absurd hsz (once htz s inS)
      · exact ih hss inS inT

/-- The functions and classes of a scope have other names than its variables and parameters. -/
theorem Stmt.ResolvedAll.callableName?_ne {x : String}
    (h : Stmt.ResolvedAll l (scope :: outer) ss after)
    (declared : scope.declares x = true ∨ Stmt.DeclareVariable x ss) :
    ∀ s ∈ ss, s.callableName? ≠ some x := by
  intro s hs same
  have hname := Stmt.name?_of_callableName? same
  rcases declared with declared | ⟨name, initializer, hvar, rfl⟩
  · exact h.name?_ne declared s hs hname
  · cases h.eq_of_name? hs hvar hname rfl
    cases same

/-- All parameters are declared afterwards, and nothing that was is lost. -/
theorem Scopes.introduceAll_declares {parameters : List Token}
    (h : parameters.foldlM Scopes.introduce (scope :: outer) = .ok after) :
    ∃ scope', after = scope' :: outer ∧
      (∀ u, scope.declares u = true → scope'.declares u = true) ∧
      ∀ p ∈ parameters, scope'.declares p.lexeme = true := by
  induction parameters generalizing scope with
  | nil =>
      cases Scopes.introduceAll_nil_eq_ok.1 h
      exact ⟨scope, rfl, fun _ h => h, by simp⟩
  | cons p ps ih =>
      obtain ⟨next, hnext, h⟩ := Scopes.introduceAll_cons_eq_ok.1 h
      obtain ⟨-, between, rfl, hbetween⟩ := Scopes.introduce_declares hnext
      obtain ⟨scope', rfl, kept, hps⟩ := ih h
      refine ⟨scope', rfl, fun u hu => kept u ?_, List.forall_mem_cons.2 ⟨kept _ ?_, hps⟩⟩
      · rw [hbetween, hu, Bool.or_true]
      · rw [hbetween, decide_eq_true rfl, Bool.true_or]

/-- So do those of the body of a function than its parameters and variables. -/
theorem Stmt.ResolvedAll.callableName?_ne_of_function {x : String} {parameters : List Token}
    {opened : Scopes} (ho : outer.openFunction parameters = .ok opened)
    (h : Stmt.ResolvedAll l opened ss after)
    (declared : (∃ p ∈ parameters, p.lexeme = x) ∨ Stmt.DeclareVariable x ss) :
    ∀ s ∈ ss, s.callableName? ≠ some x := by
  obtain ⟨scope, rfl, -, hp⟩ := Scopes.introduceAll_declares ho
  refine h.callableName?_ne (declared.imp_left ?_)
  rintro ⟨p, hmem, rfl⟩
  exact hp p hmem

end

/-! ## The whole program

Down to the place of the declaration nothing is renamed; `Renames` says the way there. -/

section
variable {l : Ledger} {x y : String}

mutual

/-- **The walk over a statement with a renamed local records the same.** -/
theorem Stmt.Renames.resolve : ∀ {s s' : Stmt}, Stmt.Renames l.distances x y s s' →
    ∀ {scopes after after' : Scopes} {entries : List Entry},
    s.resolve scopes = .ok (after, entries) → s.Resolved l scopes after' → s.Shaped →
    (∀ a ∈ s.accesses, a.name.lexeme ≠ y) → (∀ t ∈ s.declarations, t.lexeme ≠ y) →
    scopes.Avoid y → s'.resolve scopes = .ok (after, entries)
  | _, _, .block declared, scopes, _, _, _, h, resolved, shaped, ha, hd, avoid => by
      obtain ⟨⟨inner, hb⟩, rfl⟩ := Stmt.resolve_block_eq_ok.1 h
      obtain ⟨⟨inner', resolved⟩, -⟩ := resolved
      have walked := (Stmt.resolveAll_rename _ (some 0) hb resolved shaped ha hd
        (avoid.opened _) fun _ => ⟨by simp [Scopes.openBlock],
          resolved.callableName?_ne (.inr declared)⟩).1
      exact Stmt.resolve_block_eq_ok.2 ⟨⟨_, walked⟩, rfl⟩
  | _, _, .function declared, scopes, _, _, _, h, resolved, shaped, ha, hd, avoid => by
      obtain ⟨hname, opened, inner, inner', ho, hb, resolved⟩ := resolved.body_of_resolve h
      obtain ⟨hn, hd⟩ := List.forall_mem_cons.1 hd
      obtain ⟨hp, hdB⟩ := List.forall_mem_append.1 hd
      have avoid' := avoid.introduce hname hn
      have isOpen : opened ≠ [] := by
        obtain ⟨t, rfl, -⟩ := Scopes.openFunction_eq_ok ho
        exact List.cons_ne_nil t _
      have walked := (Stmt.resolveAll_rename _ (some 0) hb resolved shaped ha hdB
        ((avoid'.opened true).introduceAll ho hp) fun _ => ⟨isOpen,
          resolved.callableName?_ne_of_function ho declared⟩).1
      exact Stmt.resolve_function_eq_ok.2
        ⟨hname, _, _, Scopes.openFunction_map_rename ho hp, walked⟩
  | _, _, .inBlock hbody, scopes, _, _, _, h, resolved, shaped, ha, hd, avoid => by
      obtain ⟨⟨inner, hb⟩, rfl⟩ := Stmt.resolve_block_eq_ok.1 h
      obtain ⟨⟨inner', resolved⟩, -⟩ := resolved
      exact Stmt.resolve_block_eq_ok.2
        ⟨⟨_, hbody.resolve hb resolved shaped ha hd (avoid.opened _)⟩, rfl⟩
  | _, _, @Stmt.Renames.inYes _ _ _ condition _ _ none hyes, scopes, _, _, _, h, resolved, shaped,
      ha, hd, avoid => by
      obtain ⟨_, _, hc, hy, rfl⟩ := Stmt.resolve_ifOnly_eq_ok.1 h
      obtain ⟨-, haY⟩ := List.forall_mem_append.1 ha
      exact Stmt.resolve_ifOnly_eq_ok.2
        ⟨_, _, hc, hyes.resolve hy resolved.2.1 shaped.2 haY hd avoid, rfl⟩
  | _, _, @Stmt.Renames.inYes _ _ _ condition _ _ (some no) hyes, scopes, _, _, _, h, resolved,
      shaped, ha, hd, avoid => by
      obtain ⟨between, _, _, _, hc, hy, hn, rfl⟩ := Stmt.resolve_ifElse_eq_ok.1 h
      obtain ⟨-, haY⟩ := List.forall_mem_append.1 (List.forall_mem_append.1 ha).1
      obtain ⟨hdY, -⟩ := List.forall_mem_append.1 hd
      exact Stmt.resolve_ifElse_eq_ok.2
        ⟨_, _, _, _, hc, hyes.resolve hy resolved.2.1 shaped.1.2 haY hdY avoid, hn, rfl⟩
  | _, _, .inNo hno, scopes, _, _, _, h, resolved, shaped, ha, hd, avoid => by
      obtain ⟨between, _, _, _, hc, hy, hn, rfl⟩ := Stmt.resolve_ifElse_eq_ok.1 h
      obtain rfl := Stmt.after_of_resolve _ shaped.1.2 shaped.1.1 hy
      obtain ⟨-, haN⟩ := List.forall_mem_append.1 ha
      obtain ⟨-, hdN⟩ := List.forall_mem_append.1 hd
      exact Stmt.resolve_ifElse_eq_ok.2
        ⟨_, _, _, _, hc, hy, hno.resolve hn resolved.2.2.1 shaped.2.2 haN hdN avoid, rfl⟩
  | _, _, .inLoop hbody, scopes, _, _, _, h, resolved, shaped, ha, hd, avoid => by
      obtain ⟨_, _, hc, hb, rfl⟩ := Stmt.resolve_loop_eq_ok.1 h
      obtain ⟨-, haB⟩ := List.forall_mem_append.1 ha
      exact Stmt.resolve_loop_eq_ok.2
        ⟨_, _, hc, hbody.resolve hb resolved.2.1 shaped.2 haB hd avoid, rfl⟩
  | _, _, .inFunction hbody, scopes, _, _, _, h, resolved, shaped, ha, hd, avoid => by
      obtain ⟨hname, opened, inner, inner', ho, hb, resolved⟩ := resolved.body_of_resolve h
      obtain ⟨hn, hd⟩ := List.forall_mem_cons.1 hd
      obtain ⟨hp, hdB⟩ := List.forall_mem_append.1 hd
      have walked := hbody.resolve hb resolved shaped ha hdB
        (((avoid.introduce hname hn).opened true).introduceAll ho hp)
      exact Stmt.resolve_function_eq_ok.2 ⟨hname, _, _, ho, walked⟩

/-- The walk over a list of statements, one of which leads to the declaration. -/
theorem Stmt.RenamesAll.resolve : ∀ {ss ss' : List Stmt}, Stmt.RenamesAll l.distances x y ss ss' →
    ∀ {scopes after after' : Scopes} {entries : List Entry},
    Stmt.resolveAll scopes ss = .ok (after, entries) → Stmt.ResolvedAll l scopes ss after' →
    Stmt.ShapedAll ss → (∀ a ∈ Stmt.accessesAll ss, a.name.lexeme ≠ y) →
    (∀ t ∈ Stmt.declarationsAll ss, t.lexeme ≠ y) → scopes.Avoid y →
      Stmt.resolveAll scopes ss' = .ok (after, entries)
  | _, _, .here hs, scopes, _, _, _, h, ⟨_, resolved, _⟩, ⟨shaped, _⟩, ha, hd, avoid => by
      obtain ⟨between, _, _, hfirst, hothers, rfl⟩ := Stmt.resolveAll_cons_eq_ok.1 h
      obtain ⟨haS, -⟩ := List.forall_mem_append.1 ha
      obtain ⟨hdS, -⟩ := List.forall_mem_append.1 hd
      exact Stmt.resolveAll_cons_eq_ok.2
        ⟨_, _, _, hs.resolve hfirst resolved shaped haS hdS avoid, hothers, rfl⟩
  | _, _, @Stmt.RenamesAll.there _ _ _ s _ _ hss, scopes, _, _, _, h,
      ⟨between', resolvedS, resolvedSS⟩, ⟨shapedS, shapedSS⟩, ha, hd, avoid => by
      obtain ⟨between, _, _, hs, hothers, rfl⟩ := Stmt.resolveAll_cons_eq_ok.1 h
      obtain rfl := resolvedS.after_eq shapedS hs
      obtain ⟨haS, haSS⟩ := List.forall_mem_append.1 ha
      obtain ⟨hdS, hdSS⟩ := List.forall_mem_append.1 hd
      have avoid' := (Stmt.resolve_rename (x := x) s none hs resolvedS shapedS haS hdS avoid
        (by simp)).2
      exact Stmt.resolveAll_cons_eq_ok.2
        ⟨_, _, _, hs, hss.resolve hothers resolvedSS shapedSS haSS hdSS avoid', rfl⟩

end

/-- **The walk over a renamed program records the same.** -/
theorem resolve_renames {program program' : List Stmt} {entries : List Entry} {after : Scopes}
    (h : Stmt.RenamesAll l.distances x y program program') (unused : Stmt.Unused y program)
    (shaped : Stmt.ShapedAll program) (resolved : Stmt.ResolvedAll l [] program after)
    (hresolve : resolve program = .ok entries) : resolve program' = .ok entries := by
  obtain ⟨_, hall⟩ := resolve_eq_ok.1 hresolve
  exact resolve_eq_ok.2 ⟨_, h.resolve hall resolved shaped unused.accesses unused.declarations
    (by simp [Scopes.Avoid])⟩

end

end Lox
