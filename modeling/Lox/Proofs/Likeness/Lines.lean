import Lox.Proofs.Evaluation.Binding
import Lox.Proofs.Likeness.Machines
import Lox.Proofs.Likeness.Resolved

/-!
# Machines on other lines

The functions that a session has made carry the lines of their tokens.  A machine with the lines of
all its functions changed means the same as with its lines changed in another way: every function is
in the environment that its body was resolved in.

Nothing that a machine does depends on a line, so machines whose functions stand on other lines mean
the same.  This is what lets a session that ran a source be compared with one in which the source
was read on later lines.

* `Machine.mapLines` — a machine with other lines.
* `World.same` — every frame stands for itself.
* `Machine.Ok.alike` — two machines that differ in lines, and in the tables, are alike.
-/

namespace Lox

open Resolution

/-! ## Other lines

Lines are only in the bodies of functions, so functions are all that changes. -/

section
variable (lines : Nat → Nat)

/-- A function on other lines. -/
def Callable.mapLines : Callable → Callable
  | .function name parameters body closure =>
    .function (name.mapLine lines) (parameters.map (Token.mapLine lines))
      (Stmt.relabelAll id lines body) closure
  | c => c

/-- A value on other lines, if it is a function. -/
def Value.mapLines : Value → Value
  | .callable i c => .callable i (c.mapLines lines)
  | v => v

/-- Bindings of values on other lines. -/
def Bindings.mapLines (b : Bindings Value) : Bindings Value :=
  b.map fun (x, v) => (x, v.mapLines lines)

/-- A machine with all functions on other lines. -/
def Machine.mapLines (m : Machine) : Machine :=
  { m with
    frames := m.frames.map (Bindings.mapLines lines)
    objects := m.objects.map (Bindings.mapLines lines) }

end

theorem Callable.mapLines_id (c : Callable) : c.mapLines id = c := by
  cases c with
  | host | cls => rfl
  | function name parameters body closure =>
      rw [mapLines, Stmt.relabelAll_id]
      exact congrArg (Callable.function name · body closure) (List.map_id parameters)

theorem Value.mapLines_id (v : Value) : v.mapLines id = v := by
  cases v with
  | callable i c => exact congrArg _ c.mapLines_id
  | _ => rfl

theorem Bindings.mapLines_id (b : Bindings Value) : b.mapLines id = b :=
  (List.map_congr_left fun (x, v) _ => congrArg (Prod.mk x) v.mapLines_id).trans (List.map_id b)

/-- Where no line is changed the machine stays as it is. -/
theorem Machine.mapLines_id (m : Machine) : m.mapLines id = m := by
  have same : Bindings.mapLines id = id := funext Bindings.mapLines_id
  simp only [mapLines, same, Array.map_id]

section
variable {lines : Nat → Nat}

/-- A name is bound to the value on its other lines. -/
theorem Bindings.lookup_mapLines (b : Bindings Value) (x : String) :
    (b.mapLines lines).lookup x = (b.lookup x).map (Value.mapLines lines) := by
  induction b with
  | nil => rfl
  | cons entry b ih =>
      obtain ⟨key, v⟩ := entry
      show List.lookup x ((key, v.mapLines lines) :: Bindings.mapLines lines b) = _
      rw [List.lookup_cons, List.lookup_cons]
      split
      · rfl
      · exact ih

theorem Bindings.getD_map (bs : Array (Bindings Value)) (i : Nat) :
    (bs.map (Bindings.mapLines lines))[i]?.getD [] = (bs[i]?.getD []).mapLines lines := by
  rw [Array.getElem?_map]
  cases bs[i]? <;> rfl

end

/-! ## Every frame for itself

The two machines have the same frames, so the world is the identity on them. -/

/-- The world in which each of some frames stands for itself. -/
def World.same (n : Nat) : World :=
  (List.range n).map fun f => (f, false)

/-- The partner of a frame is that frame. -/
theorem World.getElem?_same {n : Nat} {f f' : FrameId} {renamed : Bool} :
    (World.same n)[f]? = some (f', renamed) ↔ f < n ∧ f' = f ∧ renamed = false := by
  simp only [same, List.getElem?_map, Option.map_eq_some_iff, Prod.mk.injEq]
  refine ⟨?_, ?_⟩
  · rintro ⟨g, hg, rfl, rfl⟩
    obtain ⟨hlt, hg⟩ := List.getElem?_eq_some_iff.1 hg
    rw [List.getElem_range] at hg
    exact ⟨by simpa using hlt, hg.symm, rfl⟩
  · rintro ⟨hlt, rfl, rfl⟩
    exact ⟨f', List.getElem?_range hlt, rfl, rfl⟩

section
variable {L : Likeness} {frames : Frames Value}

/-- A chain of frames for some scopes stands for itself. -/
theorem Chain.of_covers {scopes : Scopes} {fs : List FrameId} (h : frames.Covers fs scopes) :
    Chain L (World.same frames.size) (Level.plain scopes.length) fs fs := by
  induction scopes generalizing fs with
  | nil =>
      rcases fs with _ | ⟨f, _ | ⟨_, _⟩⟩
      · exact h.elim
      · obtain ⟨rfl, size⟩ := h
        exact .globals (World.getElem?_same.2 ⟨size, rfl, rfl⟩)
      · exact h.elim
  | cons s scopes ih =>
      rcases fs with _ | ⟨f, fs⟩
      · exact h.elim
      · obtain ⟨holds, covers⟩ := Frames.covers_cons.1 h
        exact .shared (World.getElem?_same.2 ⟨holds.exists_frame, rfl, rfl⟩) (ih covers)

/-! ## Alike

A function that is whole is in the environment of the scopes of its body, and that is what makes its
two copies mean the same. -/

variable {l₀ l l' : Ledger} {f g : Nat → Nat}

theorem Callable.Ok.like (plain : L.Plain l l' f g) (left : l₀.Extends l) (right : l₀.Extends l')
    {c : Callable} (h : c.Ok l₀ frames) :
    Callable.Like L (World.same frames.size) (c.mapLines f) (c.mapLines g) := by
  cases c with
  | host f => exact .host f
  | cls name => exact .cls name
  | function name parameters body closure =>
      obtain ⟨scopes, opened, inner, covers, -, ho, hbody⟩ := h
      obtain ⟨t, rfl, -⟩ := Scopes.openFunction_eq_ok ho
      have same : Stmt.relabelAll (fun _ => 0) id (Stmt.relabelAll id g body) =
          Stmt.relabelAll (fun _ => 0) g body :=
        Stmt.relabelAll_relabelAll id _ g id body
      have likes := (Stmt.likeAll_of_same plain body same (Stmt.ResolvedAll.mono left hbody)
        (Stmt.Resolved.relabelAll g body (Stmt.ResolvedAll.mono right hbody))).1
      exact .function (plain.token name) (Chain.of_covers covers) (plain.tokens parameters) likes

/-- A value that is whole is like itself on other lines. -/
theorem Value.Ok.like (plain : L.Plain l l' f g) (left : l₀.Extends l) (right : l₀.Extends l')
    {v : Value} (h : v.Ok l₀ frames) :
    Value.Like L (World.same frames.size) (v.mapLines f) (v.mapLines g) := by
  cases v with
  | callable i c => exact .callable i (Callable.Ok.like plain left right h)
  | nil => exact .nil
  | bool b => exact .bool b
  | number x => exact .number x
  | string s => exact .string s
  | object i c => exact .object i c

theorem Bindings.like_mapLines (plain : L.Plain l l' f g) (left : l₀.Extends l)
    (right : l₀.Extends l') {b : Bindings Value}
    (h : ∀ x v, b.lookup x = some v → v.Ok l₀ frames) :
    Bindings.Like L (World.same frames.size) false (b.mapLines f) (b.mapLines g) := by
  intro x
  rw [Likeness.name_false, lookup_mapLines, lookup_mapLines]
  cases hx : b.lookup x with
  | none => exact .none
  | some v => exact .some (Value.Ok.like plain left right (h x v hx))

/-- **A machine means the same on all lines**, with the tables of any two later ledgers. -/
theorem Machine.Ok.alike (plain : L.Plain l l' f g) (left : l₀.Extends l) (right : l₀.Extends l')
    {m : Machine} (h : m.Ok l₀) {scopes : Scopes} (owns : m.Owns scopes) :
    Machine.Alike L (World.same m.frames.size) (Level.plain scopes.length)
      { m.mapLines f with distances := l.distances }
      { m.mapLines g with distances := l'.distances } where
  chain := Chain.of_covers owns.covers
  machine := {
    left := plain.left.symm
    right := plain.right.symm
    globals := World.getElem?_same.2
      ⟨Nat.zero_lt_of_lt owns.covers.innermost_lt, rfl, rfl⟩
    frames := {
      size := by simp [World.same, Machine.mapLines]
      range := by
        intro p hp
        obtain ⟨i, hi, rfl⟩ := List.mem_map.1 hp
        simpa [Machine.mapLines] using hi
      nodup := by
        have fst : (World.same m.frames.size).map Prod.fst = List.range m.frames.size := by
          simp [World.same, Function.comp_def]
        rw [fst]
        exact List.nodup_range
      bindings := by
        intro i i' renamed hi
        obtain ⟨-, rfl, rfl⟩ := World.getElem?_same.1 hi
        simp only [Machine.mapLines, Frames.bindings, Bindings.getD_map]
        exact Bindings.like_mapLines plain left right (h.frames i')
      aligned := fun _ => ⟨by simp [Machine.mapLines],
        fun _ _ _ hi => (World.getElem?_same.1 hi).2.1⟩ }
    objects := by simp [Machine.mapLines]
    fields := by
      intro i
      simp only [Machine.mapLines, Bindings.getD_map]
      exact Bindings.like_mapLines plain left right (h.objects i)
    callables := rfl
    depth := rfl
    sink := rfl
    clock := rfl
    readings := rfl }

end

end Lox
