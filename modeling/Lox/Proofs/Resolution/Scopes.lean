import Lox.Resolution

/-!
# Open scopes

What the operations on open scopes do to the names they declare.

A walk succeeds or fails, and afterwards one wants to know what it has done.  For each operation
there is an equation for a list of scopes that is empty, where it does nothing, and one for a list
that has an innermost scope; and there is the way back, from a success to what the scopes are then.

* `Scope.Settled`, `Scopes.Settled` — no initializer is being resolved.
* `Scopes.introduce_eq_ok`, `Scopes.openFunction_eq_ok`, … — what a declaration that was accepted
  has done.
* `Scopes.distance?_eq_some` — the scope that an access is resolved to.
-/

namespace Lox.Resolution

/-! ## Exceptions

What a sequence that succeeded or failed is made of. -/

/-- A sequence succeeds if both parts do. -/
theorem except_bind_eq_ok {ε α β : Type} {x : Except ε α} {f : α → Except ε β} {b : β} :
    (x >>= f) = .ok b ↔ ∃ a, x = .ok a ∧ f a = .ok b := by
  cases x with
  | error e =>
      refine ⟨fun h => ?_, ?_⟩
      · have h : Except.error e = Except.ok b := h
        cases h
      · rintro ⟨a, h, -⟩
        cases h
  | ok a =>
      refine ⟨fun h => ⟨a, rfl, h⟩, ?_⟩
      rintro ⟨a, ⟨rfl⟩, h⟩
      exact h

/-- It fails if the first part does, or the second after it. -/
theorem except_bind_eq_error {ε α β : Type} {x : Except ε α} {f : α → Except ε β} {e : ε} :
    (x >>= f) = .error e ↔ x = .error e ∨ ∃ a, x = .ok a ∧ f a = .error e := by
  cases x with
  | error e' =>
      have stays : (Except.error e' >>= f) = Except.error e' := rfl
      simp [stays]
  | ok a =>
      have goes : (Except.ok a >>= f) = f a := rfl
      simp [goes]

theorem except_pure_eq_ok {ε α : Type} {a b : α} : (pure a : Except ε α) = .ok b ↔ a = b :=
  ⟨fun h => by injection h, fun h => congrArg _ h⟩

/-! ## Names of a scope

A scope lists its names with whether each is readable; a name that has been declared and not yet
defined is not.  Entries are added in front, and the first one counts. -/

/-- Every name declared in the scope may be read. -/
def Scope.Settled (s : Scope) : Prop :=
  ∀ name, s.names.lookup name ≠ some false

/-- Every name declared in one of the scopes may be read. -/
def Scopes.Settled (scopes : Scopes) : Prop :=
  ∀ s ∈ scopes, s.Settled

/-- A scope with one name more. -/
def Scope.add (s : Scope) (name : String) (readable : Bool) : Scope :=
  { s with names := (name, readable) :: s.names }

namespace Scope

variable {s : Scope} {name other : String} {readable : Bool}

/-- A name does not change whether a function is around. -/
@[simp]
theorem inFunction_add : (s.add name readable).inFunction = s.inFunction :=
  rfl

/-- The entry in front is found first. -/
theorem lookup_add : (s.add name readable).names.lookup other =
    if other = name then some readable else s.names.lookup other := by
  by_cases h : other = name
  · simp [add, h]
  · have h' : (other == name) = false := by simpa using h
    simp [add, List.lookup_cons, h, h']

/-- A name that is added is declared, beside those that were. -/
theorem declares_add : (s.add name readable).declares other =
    (decide (other = name) || s.declares other) := by
  simp only [declares, lookup_add]
  by_cases h : other = name <;> simp [h]

/-- A name is declared if it has an entry. -/
theorem declares_iff : s.declares name = true ↔ ∃ readable, s.names.lookup name = some readable := by
  simp [declares, Option.isSome_iff_exists]

/-- A readable name leaves no initializer pending. -/
theorem Settled.add (h : s.Settled) : (s.add name true).Settled := by
  intro other
  rw [lookup_add]
  split
  · simp
  · exact h other

/-- Once a name may be read, that it was declared first leaves no trace. -/
theorem lookup_add_add : ((s.add name readable).add name true).names.lookup other =
    (s.add name true).names.lookup other := by
  simp only [lookup_add]
  split <;> rfl

theorem Settled.of_lookup {t : Scope} (h : s.Settled)
    (same : ∀ name, t.names.lookup name = s.names.lookup name) : t.Settled :=
  fun name => by rw [same]; exact h name

end Scope

/-! ## Declarations

To declare a name, to define it, and to do both, which is what all declarations but those of
variables do. -/

namespace Scopes

variable {scopes scopes' : Scopes} {s : Scope} {outer : Scopes} {name : Token}

/-- At the top level nothing is tracked. -/
@[simp]
theorem declare_nil : declare [] name = .ok [] :=
  rfl

/-- A name that the innermost scope has not declared is added, not readable. -/
theorem declare_cons (h : s.declares name.lexeme = false) :
    declare (s :: outer) name = .ok (s.add name.lexeme false :: outer) := by
  simp [declare, h, Scope.add]

/-- What a declaration that was accepted has done. -/
theorem declare_cons_eq_ok (h : declare (s :: outer) name = .ok scopes') :
    s.declares name.lexeme = false ∧ scopes' = s.add name.lexeme false :: outer := by
  simp only [declare] at h
  split at h
  next => exact nomatch h
  next hs => exact ⟨by simpa using hs, by injection h with h; exact h.symm⟩

/-- Globals are not defined in any scope. -/
@[simp]
theorem define_nil : define [] name = [] :=
  rfl

/-- A name that is defined is readable from then on. -/
@[simp]
theorem define_cons : define (s :: outer) name = s.add name.lexeme true :: outer :=
  rfl

/-- A name is introduced by its declaration and its definition. -/
theorem introduce_eq_ok_iff : introduce scopes name = .ok scopes' ↔
    ∃ declared, declare scopes name = .ok declared ∧ scopes' = declared.define name := by
  refine except_bind_eq_ok.trans (exists_congr fun declared => and_congr_right fun _ => ?_)
  exact except_pure_eq_ok.trans eq_comm

/-- Both at once, if the name is new. -/
theorem introduce_cons (h : s.declares name.lexeme = false) :
    introduce (s :: outer) name =
      .ok ((s.add name.lexeme false).add name.lexeme true :: outer) := by
  simp only [introduce, declare_cons h]
  rfl

theorem introduce_cons_eq_ok (h : introduce (s :: outer) name = .ok scopes') :
    s.declares name.lexeme = false ∧
      scopes' = (s.add name.lexeme false).add name.lexeme true :: outer := by
  obtain ⟨declared, hd, rfl⟩ := introduce_eq_ok_iff.1 h
  obtain ⟨hs, rfl⟩ := declare_cons_eq_ok hd
  exact ⟨hs, rfl⟩

/-- The scopes after a declaration that was accepted: at the top level as before, else with one
name more in the innermost scope. -/
theorem introduce_eq_ok (h : introduce scopes name = .ok scopes') :
    (scopes = [] ∧ scopes' = []) ∨ ∃ s outer, scopes = s :: outer ∧
      s.declares name.lexeme = false ∧
      scopes' = (s.add name.lexeme false).add name.lexeme true :: outer := by
  cases scopes with
  | nil => exact .inl ⟨rfl, by injection h with h; exact h.symm⟩
  | cons s outer =>
      obtain ⟨hs, rfl⟩ := introduce_cons_eq_ok h
      exact .inr ⟨s, outer, rfl, hs, rfl⟩

/-- No declaration opens a scope or closes one. -/
theorem isEmpty_introduce (h : introduce scopes name = .ok scopes') :
    scopes'.isEmpty = scopes.isEmpty := by
  rcases introduce_eq_ok h with ⟨rfl, rfl⟩ | ⟨s, outer, rfl, -, rfl⟩
  · rfl
  · rfl

/-- As many scopes are open after a declaration. -/
theorem length_declare (h : declare scopes name = .ok scopes') : scopes'.length = scopes.length := by
  cases scopes with
  | nil =>
      cases h
      rfl
  | cons s outer =>
      obtain ⟨-, rfl⟩ := declare_cons_eq_ok h
      rfl

/-- As many are open after a definition. -/
@[simp]
theorem length_define : (define scopes name).length = scopes.length := by
  cases scopes <;> rfl

theorem length_introduce (h : introduce scopes name = .ok scopes') :
    scopes'.length = scopes.length := by
  rcases introduce_eq_ok h with ⟨rfl, rfl⟩ | ⟨s, outer, rfl, -, rfl⟩
  · rfl
  · rfl

/-- Nothing is pending when a name has been introduced. -/
theorem Settled.introduce (hs : Settled scopes) (h : introduce scopes name = .ok scopes') :
    Settled scopes' := by
  rcases introduce_eq_ok h with ⟨rfl, rfl⟩ | ⟨s, outer, rfl, -, rfl⟩
  · exact hs
  · obtain ⟨hs, houter⟩ := List.forall_mem_cons.1 hs
    exact List.forall_mem_cons.2 ⟨hs.add.of_lookup fun _ => Scope.lookup_add_add, houter⟩

/-- Nothing is pending in a new scope. -/
theorem Settled.openBlock (hs : Settled scopes) : Settled scopes.openBlock :=
  List.forall_mem_cons.2 ⟨fun _ => by simp, hs⟩

/-- Without parameters the scopes stay as they are. -/
theorem introduceAll_nil_eq_ok :
    ([] : List Token).foldlM Scopes.introduce scopes = .ok scopes' ↔ scopes' = scopes :=
  except_pure_eq_ok.trans eq_comm

/-- The parameters are introduced one by one, in a scope of their own. -/
theorem introduceAll_cons_eq_ok {parameters : List Token} :
    (name :: parameters).foldlM Scopes.introduce scopes = .ok scopes' ↔
      ∃ next, introduce scopes name = .ok next ∧
        parameters.foldlM Scopes.introduce next = .ok scopes' := by
  rw [List.foldlM_cons]
  exact except_bind_eq_ok

/-- Nothing is pending when all parameters have been introduced. -/
theorem Settled.introduceAll {parameters : List Token} (hs : Settled scopes)
    (h : parameters.foldlM Scopes.introduce scopes = .ok scopes') : Settled scopes' := by
  induction parameters generalizing scopes with
  | nil =>
      obtain rfl := introduceAll_nil_eq_ok.1 h
      exact hs
  | cons p ps ih =>
      obtain ⟨next, hnext, h⟩ := introduceAll_cons_eq_ok.1 h
      exact ih (hs.introduce hnext) h

/-- Nothing is pending where the body of a function begins. -/
theorem Settled.openFunction {parameters : List Token} (hs : Settled scopes)
    (h : openFunction scopes parameters = .ok scopes') : Settled scopes' :=
  introduceAll (List.forall_mem_cons.2 ⟨fun _ => by simp, hs⟩) h

/-- The scopes outside the innermost one, and that there is an innermost one, stay as they are. -/
theorem introduceAll_eq_ok {parameters : List Token}
    (h : parameters.foldlM introduce (s :: outer) = .ok scopes') :
    ∃ t : Scope, scopes' = t :: outer ∧ t.inFunction = s.inFunction := by
  induction parameters generalizing s with
  | nil => exact ⟨s, introduceAll_nil_eq_ok.1 h, rfl⟩
  | cons p ps ih =>
      obtain ⟨next, hnext, h⟩ := introduceAll_cons_eq_ok.1 h
      obtain ⟨-, rfl⟩ := introduce_cons_eq_ok hnext
      obtain ⟨t, rfl, ht⟩ := ih h
      exact ⟨t, rfl, ht⟩

/-- The scope of a function is one more, and is in a function. -/
theorem openFunction_eq_ok {parameters : List Token}
    (h : openFunction scopes parameters = .ok scopes') :
    ∃ t : Scope, scopes' = t :: scopes ∧ t.inFunction = true :=
  introduceAll_eq_ok h

/-! ## Distances

The distance of a name is the number of scopes between its access and its declaration. -/

/-- No scope, no distance: the name is a global. -/
@[simp]
theorem distance?_nil {x : String} : distance? [] x = none :=
  rfl

/-- The innermost scope that declares the name, counted from inside. -/
theorem distance?_cons {x : String} : distance? (s :: outer) x =
    if s.declares x then some 0 else (distance? outer x).map (· + 1) := by
  simp [distance?, List.findIdx?_cons]

/-- An access is resolved to a scope that declares its name. -/
theorem distance?_eq_some {x : String} {distance : Nat} (h : distance? scopes x = some distance) :
    ∃ s, scopes[distance]? = some s ∧ s.declares x = true := by
  induction scopes generalizing distance with
  | nil => simp at h
  | cons s outer ih =>
      rw [distance?_cons] at h
      split at h
      next hs =>
        obtain rfl : 0 = distance := by simpa using h
        exact ⟨s, rfl, hs⟩
      next =>
        obtain ⟨d, hd, rfl⟩ := Option.map_eq_some_iff.1 h
        obtain ⟨t, ht, hx⟩ := ih hd
        exact ⟨t, by simpa using ht, hx⟩

/-- Only a name of the innermost scope is pending. -/
theorem isPending_cons {x : String} :
    isPending (s :: outer) x = true ↔ s.names.lookup x = some false := by
  simp [isPending]

/-- No initializer of a global is pending. -/
theorem isPending_nil {x : String} : isPending [] x = false :=
  rfl

/-- None is if all scopes are settled. -/
theorem Settled.isPending (h : Settled scopes) (x : String) : scopes.isPending x = false := by
  cases scopes with
  | nil => rfl
  | cons s outer =>
      rw [Bool.eq_false_iff]
      intro hp
      exact h s List.mem_cons_self x (isPending_cons.1 hp)

/-- While an initializer is resolved, its own variable is the one name that is pending. -/
theorem isPending_add (h : s.Settled) {x : String} :
    isPending (s.add name.lexeme false :: outer) x = true ↔ x = name.lexeme := by
  rw [isPending_cons, Scope.lookup_add]
  by_cases hx : x = name.lexeme
  · simp [hx]
  · simp only [hx, if_false, iff_false]
    exact h x

end Scopes

end Lox.Resolution
