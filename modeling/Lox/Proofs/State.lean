/-!
# Steps that can fail

Both the rules of the grammar and the steps of a run are functions of a state that fail or yield a
result, with a new state either way.  What a sequence of them does follows from what its parts do.

An equation for a sequence is stated both ways.  To carry a reading or a run out, one rewrites with
what its first part did; to learn what a reading or a run that succeeded has been, one takes it
apart.

* `bind_ok`, `bind_error`, `map_ok`, `map_error` — a sequence whose first part is known.
* `bind_eq_ok`, `map_eq_ok`, `pure_eq_ok` — what a sequence that succeeded is made of.
-/

namespace Lox

variable {ε σ α β : Type} {s t : σ}

/-- A sequence whose first part succeeds goes on with its result. -/
theorem bind_ok {x : EStateM ε σ α} {f : α → EStateM ε σ β} {a : α} (h : x s = .ok a t) :
    (x >>= f) s = f a t := by
  simp only [bind, EStateM.bind, h]

/-- A sequence whose first part fails fails with it. -/
theorem bind_error {x : EStateM ε σ α} {f : α → EStateM ε σ β} {e : ε} (h : x s = .error e t) :
    (x >>= f) s = .error e t := by
  simp only [bind, EStateM.bind, h]

theorem map_ok {x : EStateM ε σ α} {f : α → β} {a : α} (h : x s = .ok a t) :
    (f <$> x) s = .ok (f a) t := by
  simp only [Functor.map, EStateM.map, h]

theorem map_error {x : EStateM ε σ α} {f : α → β} {e : ε} (h : x s = .error e t) :
    (f <$> x) s = .error e t := by
  simp only [Functor.map, EStateM.map, h]

/-- A sequence that succeeded consists of a first part that did and of a second one that did from
there. -/
theorem bind_eq_ok {x : EStateM ε σ α} {f : α → EStateM ε σ β} {b : β} :
    (x >>= f) s = .ok b t ↔ ∃ a u, x s = .ok a u ∧ f a u = .ok b t := by
  cases h : x s with
  | ok a u =>
      rw [bind_ok h]
      exact ⟨fun hb => ⟨a, u, rfl, hb⟩, by rintro ⟨a, u, ⟨rfl, rfl⟩, hb⟩; exact hb⟩
  | error e u =>
      rw [bind_error h]
      exact ⟨fun hb => by simp at hb, by rintro ⟨a, u, ha, -⟩; simp at ha⟩

theorem map_eq_ok {f : α → β} {x : EStateM ε σ α} {b : β} :
    (f <$> x) s = .ok b t ↔ ∃ a, x s = .ok a t ∧ f a = b := by
  simp only [Functor.map, EStateM.map]
  cases h : x s with
  | ok a u =>
      simp only [EStateM.Result.ok.injEq]
      exact ⟨by rintro ⟨rfl, rfl⟩; exact ⟨a, ⟨rfl, rfl⟩, rfl⟩,
        by rintro ⟨a, ⟨rfl, rfl⟩, rfl⟩; exact ⟨rfl, rfl⟩⟩
  | error e u => simp

@[simp]
theorem pure_eq_ok {a b : α} : (pure a : EStateM ε σ α) s = .ok b t ↔ a = b ∧ s = t := by
  simp [pure, EStateM.pure]

end Lox
