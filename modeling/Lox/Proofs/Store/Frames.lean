import Lox.Store

/-!
# Frames after a write

A write changes one binding of one frame, and a new frame changes none.  Frames are never removed,
so an identity stands for the same frame ever after.

* `Bindings.binds_insert` — which names are bound after one was.
* `Frames.bindings_write`, `Frames.bindings_grow` — the frames after a write, and after a new one
  was made.
-/

namespace Lox

namespace Bindings

variable {α : Type}

theorem lookup_insert (name other : String) (value : α) (bindings : Bindings α) :
    (insert name value bindings).lookup other =
      if other = name then some value else bindings.lookup other := by
  by_cases h : other = name
  · rw [if_pos h, h, lookup_insert_self]
  · rw [if_neg h, lookup_insert_of_ne h]

theorem binds_insert (name other : String) (value : α) (bindings : Bindings α) :
    (insert name value bindings).binds other = (decide (other = name) || bindings.binds other) := by
  simp only [binds, lookup_insert]
  by_cases h : other = name <;> simp [h]

theorem binds_iff {bindings : Bindings α} {name : String} :
    bindings.binds name = true ↔ ∃ value, bindings.lookup name = some value := by
  simp [binds, Option.isSome_iff_exists]

end Bindings

namespace Frames

variable {α : Type} (frames : Frames α) (frame other : FrameId) (name : String) (value : α)

@[simp]
theorem size_write : (frames.write frame name value).size = frames.size := by
  simp [write]

@[simp]
theorem size_grow : frames.grow.size = frames.size + 1 := by
  simp [grow]

/-- A write changes the frame that it is into, if there is such a frame, and no other one. -/
theorem bindings_write : (frames.write frame name value).bindings other =
    if other = frame ∧ frame < frames.size then
      Bindings.insert name value (frames.bindings frame)
    else frames.bindings other := by
  simp only [bindings, write, Array.getElem?_modify]
  by_cases h : frame = other
  · subst h
    by_cases hf : frame < frames.size
    · simp [hf]
    · simp [hf]
  · simp [h, Ne.symm h]

/-- A new frame binds nothing, and all others bind what they did. -/
@[simp]
theorem bindings_grow : frames.grow.bindings other = frames.bindings other := by
  simp only [bindings, grow, Array.getElem?_push]
  split
  next h => simp [h]
  next => rfl

/-- A name written over was bound. -/
theorem binds_write {x : String} (h : (frames.bindings frame).binds name = true) :
    ((frames.write frame name value).bindings other).binds x =
      (frames.bindings other).binds x := by
  rw [bindings_write]
  split
  next hf =>
    rw [Bindings.binds_insert, hf.1]
    by_cases hx : x = name
    · simp [hx, h]
    · simp [hx]
  next => rfl

end Frames

end Lox
