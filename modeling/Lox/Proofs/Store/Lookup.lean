import Lox.Machine
import Lox.Proofs.Store.Frames

/-!
# Looking names up

A name is looked up along a chain, which finds the nearest frame that binds it, or at a distance,
which looks at one frame only.  The distance that a program is resolved to is that of the nearest
frame, and there the two agree: they read the same value, and a write through one leaves the same
table as a write through the other.

Environments share frames, so what a write leaves is said of the table: one binding of one frame has
a new value, whichever chain it is looked up through, and all others are what they were.

* `Frames.Nearest` — the nearest frame of a chain that binds a name, and its distance.
* `Frames.Overwritten` — what one write leaves.
* `Frames.binder?_eq_some_iff`, `Frames.binderAt?_eq_some_iff` — the frames the two ways write in.
* `lookups_agree` — **the two ways agree at the distance of the nearest frame**.
-/

namespace Lox

namespace Frames

variable {α : Type} {frames frames' : Frames α} {env : Env} {name : String} {value : α}
  {distance : Nat} {frame : FrameId}

/-! ## The nearest frame

Both ways write in one frame of the chain, the one that they read from. -/

/-- A frame of a chain binds a name, at a distance at which no nearer one does. -/
structure Nearest (frames : Frames α) (env : Env) (name : String) (distance : Nat)
    (frame : FrameId) : Prop where
  here : env.frames[distance]? = some frame
  binds : (frames.bindings frame).binds name = true
  first : ∀ d < distance, ∀ f, env.frames[d]? = some f → (frames.bindings f).binds name = false

/-- A write by name goes to the nearest frame. -/
theorem binder?_eq_some_iff : frames.binder? env name = some frame ↔
    ∃ distance, frames.Nearest env name distance frame := by
  rw [binder?, List.find?_eq_some_iff_getElem]
  constructor
  · rintro ⟨binds, d, hd, rfl, before⟩
    refine ⟨d, List.getElem?_eq_getElem hd, binds, fun k hk f hf => ?_⟩
    obtain ⟨hlt, rfl⟩ := List.getElem?_eq_some_iff.1 hf
    simpa using before k hk
  · rintro ⟨d, here, binds, first⟩
    obtain ⟨hd, rfl⟩ := List.getElem?_eq_some_iff.1 here
    refine ⟨binds, d, hd, rfl, fun k hk => ?_⟩
    have hlt : k < env.frames.length := by omega
    simp [first k hk _ (List.getElem?_eq_getElem hlt)]

/-- A write at a distance goes to the frame there, or nowhere. -/
theorem binderAt?_eq_some_iff : frames.binderAt? env distance name = some frame ↔
    env.frames[distance]? = some frame ∧ (frames.bindings frame).binds name = true := by
  rw [binderAt?, Option.filter_eq_some_iff]

/-- There is no frame to write in if none of the chain binds the name. -/
theorem binder?_eq_none_iff : frames.binder? env name = none ↔
    ∀ f ∈ env.frames, (frames.bindings f).binds name = false := by
  simp [binder?, List.find?_eq_none]

/-- What is found by name is the value in the frame that a write by name goes to. -/
theorem find?_eq : frames.find? env name =
    (frames.binder? env name).bind fun f => (frames.bindings f).lookup name := by
  rw [find?, binder?]
  induction env.frames with
  | nil => rfl
  | cons f fs ih =>
    rw [List.findSome?_cons, List.find?_cons, Bindings.binds]
    cases h : (frames.bindings f).lookup name with
    | none => simpa using ih
    | some v => simp [h]

/-- At a distance a name is read in the frame that would be written in. -/
theorem findAt?_eq : frames.findAt? env distance name =
    (frames.binderAt? env distance name).bind fun f => (frames.bindings f).lookup name := by
  rw [findAt?, binderAt?]
  cases env.frames[distance]? with
  | none => rfl
  | some f =>
    rw [Option.filter_some, Bindings.binds]
    cases h : (frames.bindings f).lookup name with
    | none => simp [h]
    | some v => simp [h]

/-- What is found at a distance is bound in the frame there. -/
theorem findAt?_eq_some_iff : frames.findAt? env distance name = some value ↔
    ∃ f, env.frames[distance]? = some f ∧ (frames.bindings f).lookup name = some value := by
  rw [findAt?, Option.bind_eq_some_iff]

namespace Nearest

variable (h : frames.Nearest env name distance frame)
include h

theorem binder? : frames.binder? env name = some frame :=
  binder?_eq_some_iff.2 ⟨distance, h⟩

theorem binderAt? : frames.binderAt? env distance name = some frame :=
  binderAt?_eq_some_iff.2 ⟨h.here, h.binds⟩

/-- By name and at the distance of the nearest frame, the same is found. -/
theorem find?_eq_findAt? : frames.find? env name = frames.findAt? env distance name := by
  rw [find?_eq, findAt?_eq, h.binder?, h.binderAt?]

/-- By name and at the distance of the nearest frame, a write does the same. -/
theorem assign?_eq_assignAt? (value : α) :
    frames.assign? env name value = frames.assignAt? env distance name value := by
  rw [assign?, assignAt?, h.binder?, h.binderAt?]

end Nearest

/-! ## What a write leaves

Stated of the table of frames and not of an environment, since other environments can contain the
frame as well. -/

/-- One binding of one frame has a new value, and all others are what they were. -/
structure Overwritten (frames : Frames α) (frame : FrameId) (name : String) (value : α)
    (frames' : Frames α) : Prop where
  size : frames'.size = frames.size
  lookup : ∀ f x, (frames'.bindings f).lookup x =
    if f = frame ∧ x = name then some value else (frames.bindings f).lookup x

/-- A frame that binds anything is in the table. -/
theorem lt_size_of_binds (h : (frames.bindings frame).binds name = true) : frame < frames.size := by
  rcases Nat.lt_or_ge frame frames.size with inside | outside
  · exact inside
  · simp [bindings, Bindings.binds, outside] at h

theorem overwritten_write (h : (frames.bindings frame).binds name = true) (value : α) :
    frames.Overwritten frame name value (frames.write frame name value) := by
  refine ⟨size_write .., fun f x => ?_⟩
  have inside := lt_size_of_binds h
  rw [bindings_write]
  by_cases hf : f = frame
  · simp [hf, inside, Bindings.lookup_insert]
  · simp [hf]

namespace Overwritten

variable (h : frames.Overwritten frame name value frames')
include h

/-- The new value is seen at every distance at which the frame lies on a chain. -/
theorem findAt? {other : Env} {d : Nat} (here : other.frames[d]? = some frame) :
    frames'.findAt? other d name = some value :=
  findAt?_eq_some_iff.2 ⟨frame, here, by simp [h.lookup]⟩

/-- No name is bound that was not, in the frame or in another one. -/
theorem binds (bound : (frames.bindings frame).binds name = true) (f : FrameId) (x : String) :
    (frames'.bindings f).binds x = (frames.bindings f).binds x := by
  rw [Bindings.binds, Bindings.binds, h.lookup]
  split
  next same =>
    rw [same.1, same.2]
    exact bound.symm
  next => rfl

/-- The new value is found by name through every chain on which the frame is the nearest. -/
theorem find? {other : Env} {d : Nat} (near : frames.Nearest other name d frame) :
    frames'.find? other name = some value := by
  have same := h.binds near.binds
  have near' : frames'.Nearest other name d frame :=
    ⟨near.here, (same frame name).trans near.binds,
      fun k hk f hf => (same f name).trans (near.first k hk f hf)⟩
  rw [near'.find?_eq_findAt?, h.findAt? near.here]

end Overwritten

theorem assignAt?_eq_some (h : frames.assignAt? env distance name value = some frames') :
    ∃ f, env.frames[distance]? = some f ∧ (frames.bindings f).binds name = true ∧
      frames' = frames.write f name value := by
  obtain ⟨f, hf, rfl⟩ := Option.map_eq_some_iff.1 h
  obtain ⟨here, binds⟩ := binderAt?_eq_some_iff.1 hf
  exact ⟨f, here, binds, rfl⟩

/-- A write that succeeds has found a frame that binds the name. -/
theorem assign?_eq_some (h : frames.assign? env name value = some frames') :
    ∃ f, (frames.bindings f).binds name = true ∧ frames' = frames.write f name value := by
  obtain ⟨f, hf, rfl⟩ := Option.map_eq_some_iff.1 h
  obtain ⟨d, near⟩ := binder?_eq_some_iff.1 hf
  exact ⟨f, near.binds, rfl⟩

/-! ## Steps that fail

A read and a write fail with the name they were about, and leave the frames as they were. -/

section
variable {line : Nat} {d : Diagnostic}

theorem look_eq_ok {find? : Frames α → Option α} :
    look find? name line frames = .ok value frames' ↔
      find? frames = some value ∧ frames' = frames := by
  unfold look
  cases find? frames <;> simp [eq_comm]

theorem update_eq_ok {assign? : Frames α → Option (Frames α)} :
    update assign? name line frames = .ok () frames' ↔ assign? frames = some frames' := by
  unfold update
  cases assign? frames <;> simp

/-- A look-up that fails is blamed on its line, and leaves the table alone. -/
theorem look_eq_error {find? : Frames α → Option α} :
    look find? name line frames = .error d frames' ↔
      find? frames = none ∧ d = .runtime line (.undefinedVariable name) ∧ frames' = frames := by
  unfold look
  cases find? frames <;> simp [eq_comm]

/-- An assignment that fails is blamed on its line, and leaves the table alone. -/
theorem update_eq_error {assign? : Frames α → Option (Frames α)} :
    update assign? name line frames = .error d frames' ↔
      assign? frames = none ∧ d = .runtime line (.undefinedVariable name) ∧ frames' = frames := by
  unfold update
  cases assign? frames <;> simp [eq_comm]

end

end Frames

/-! ## The accesses of a run

An access of a run is one of these steps: at its distance if the table has one, and else along the
chain of the globals. -/

namespace Eval

variable (m : Machine) (id : NodeId) (name : Token)

/-- A step on the frames, taken by a run. -/
def onFrames {β : Type} (step : Frames.Step Value β) : Eval β := fun m =>
  match step m.frames with
  | .ok b frames => .ok b { m with frames }
  | .error d frames => .error (.failed d) { m with frames }

/-- A run reads a local at its distance, and any other name among the globals. -/
theorem readVariable_eq : readVariable id name m = onFrames
    (match m.distances[id]? with
      | some distance => m.env.getAt distance name.lexeme name.line
      | none => Machine.globals.get name.lexeme name.line) m := by
  rw [readVariable, Machine.find?]
  cases m.distances[id]? with
  | none =>
    simp only [onFrames, Env.get, Frames.look]
    cases m.frames.find? Machine.globals name.lexeme <;> rfl
  | some distance =>
    simp only [onFrames, Env.getAt, Frames.look]
    cases m.frames.findAt? m.env distance name.lexeme <;> rfl

/-- A run assigns a local at its distance, and any other name among the globals. -/
theorem writeVariable_eq (value : Value) : writeVariable id name value m = onFrames
    (match m.distances[id]? with
      | some distance => m.env.assignAt distance name.lexeme value name.line
      | none => Machine.globals.assign name.lexeme value name.line) m := by
  rw [writeVariable, Machine.binder?]
  cases m.distances[id]? with
  | none =>
    simp only [onFrames, Env.assign, Frames.update, Frames.assign?]
    cases m.frames.binder? Machine.globals name.lexeme <;> rfl
  | some distance =>
    simp only [onFrames, Env.assignAt, Frames.update, Frames.assignAt?]
    cases m.frames.binderAt? m.env distance name.lexeme <;> rfl

end Eval

/-! ## The two ways agree

All of it, for tables and chains of any kind. -/

open Frames

/-- **Looking a name up and at its distance agree.**  Of every table, every environment and every
name, bound at a distance and nowhere nearer: the value found by name is the one at the distance,
and both assignments leave the same table, in which that one binding has the new value, whichever
environment it is looked up through, and everything else is what it was.  A name that is bound
nowhere is undefined on the given line.  At a distance only the frame there counts.  A step that
fails leaves the table alone, and no assignment binds a name anew.  A run accesses its variables in
these ways. -/
theorem lookups_agree {α : Type} (frames : Frames α) (env : Env) (name : String) (value : α)
    (line : Nat) :
    (∀ distance frame, frames.Nearest env name distance frame →
      env.get name line frames = env.getAt distance name line frames ∧
      env.assign name value line frames = env.assignAt distance name value line frames ∧
      ∃ frames', env.assign name value line frames = .ok () frames' ∧
        frames.Overwritten frame name value frames' ∧
        ∀ (other : Env) d, (other.frames[d]? = some frame →
            other.getAt d name line frames' = .ok value frames') ∧
          (frames.Nearest other name d frame →
            other.get name line frames' = .ok value frames')) ∧
    ((∀ f ∈ env.frames, (frames.bindings f).binds name = false) →
      env.get name line frames = .error (.runtime line (.undefinedVariable name)) frames ∧
      env.assign name value line frames =
        .error (.runtime line (.undefinedVariable name)) frames) ∧
    (∀ distance,
      (∀ v frames', env.getAt distance name line frames = .ok v frames' ↔
        (∃ f, env.frames[distance]? = some f ∧ (frames.bindings f).lookup name = some v) ∧
          frames' = frames) ∧
      (∀ frames', env.assignAt distance name value line frames = .ok () frames' ↔
        ∃ f, env.frames[distance]? = some f ∧ (frames.bindings f).binds name = true ∧
          frames' = frames.write f name value)) ∧
    (∀ distance d frames',
      (env.get name line frames = .error d frames' ∨
        env.getAt distance name line frames = .error d frames' ∨
        env.assign name value line frames = .error d frames' ∨
        env.assignAt distance name value line frames = .error d frames') →
      d = .runtime line (.undefinedVariable name) ∧ frames' = frames) ∧
    (∀ distance frames',
      (env.assign name value line frames = .ok () frames' ∨
        env.assignAt distance name value line frames = .ok () frames') →
      ∀ f x, (frames'.bindings f).binds x = (frames.bindings f).binds x) ∧
    RuntimeFault.message (.undefinedVariable name) = "Undefined variable '" ++ name ++ "'." ∧
    ∀ (m : Machine) (id : NodeId) (x : Token) (v : Value),
      Eval.readVariable id x m = Eval.onFrames
        (match m.distances[id]? with
          | some distance => m.env.getAt distance x.lexeme x.line
          | none => Machine.globals.get x.lexeme x.line) m ∧
      Eval.writeVariable id x v m = Eval.onFrames
        (match m.distances[id]? with
          | some distance => m.env.assignAt distance x.lexeme v x.line
          | none => Machine.globals.assign x.lexeme v x.line) m := by
  refine ⟨fun distance frame near => ?_, fun unbound => ?_, fun distance => ⟨?_, ?_⟩, ?_, ?_, rfl,
    fun m id x v => ⟨Eval.readVariable_eq m id x, Eval.writeVariable_eq m id x v⟩⟩
  · have found := near.find?_eq_findAt?
    have assigned := near.assign?_eq_assignAt? value
    have written := overwritten_write near.binds value
    refine ⟨?_, ?_, frames.write frame name value, ?_, written, fun other d => ⟨?_, ?_⟩⟩
    · simp only [Env.get, Env.getAt, look, found]
    · simp only [Env.assign, Env.assignAt, update, assigned]
    · rw [Env.assign, update_eq_ok, assign?, near.binder?, Option.map_some]
    · intro here
      exact look_eq_ok.2 ⟨written.findAt? here, rfl⟩
    · intro near'
      exact look_eq_ok.2 ⟨written.find? near', rfl⟩
  · have none : frames.binder? env name = none := binder?_eq_none_iff.2 unbound
    refine ⟨look_eq_error.2 ⟨?_, rfl, rfl⟩, update_eq_error.2 ⟨?_, rfl, rfl⟩⟩
    · rw [find?_eq, none, Option.bind_none]
    · rw [assign?, none, Option.map_none]
  · intro v frames'
    rw [Env.getAt, look_eq_ok, findAt?_eq_some_iff]
  · intro frames'
    rw [Env.assignAt, update_eq_ok]
    constructor
    · exact assignAt?_eq_some
    · rintro ⟨f, here, binds, rfl⟩
      rw [assignAt?, binderAt?_eq_some_iff.2 ⟨here, binds⟩, Option.map_some]
  · rintro distance d frames' (h | h | h | h)
    · exact (look_eq_error.1 h).2
    · exact (look_eq_error.1 h).2
    · exact (update_eq_error.1 h).2
    · exact (update_eq_error.1 h).2
  · rintro distance frames' (h | h)
    · obtain ⟨f, binds, rfl⟩ := assign?_eq_some (update_eq_ok.1 h)
      exact (overwritten_write binds value).binds binds
    · obtain ⟨f, -, binds, rfl⟩ := assignAt?_eq_some (update_eq_ok.1 h)
      exact (overwritten_write binds value).binds binds

/-- A name that an inner scope does not bind and two outer ones do: an assignment goes to the middle
one, a closure that keeps the middle scope sees the new value, and the global stays. -/
theorem lookups_agree_shadowed :
    let frames : Frames Nat := #[[("x", 1)], [("x", 2), ("y", 3)], [("y", 4)]]
    frames.Nearest ⟨2, [1, 0]⟩ "x" 1 1 ∧
      ∃ frames', Env.assign ⟨2, [1, 0]⟩ "x" 9 7 frames = .ok () frames' ∧
        Env.getAt ⟨1, [0]⟩ 0 "x" 7 frames' = .ok 9 frames' ∧
        (frames'.bindings 0).lookup "x" = some 1 := by
  intro frames
  have near : frames.Nearest ⟨2, [1, 0]⟩ "x" 1 1 := by
    refine ⟨rfl, by decide, fun d hd f hf => ?_⟩
    obtain rfl : d = 0 := by omega
    obtain rfl : 2 = f := by simpa [Env.frames] using hf
    decide
  obtain ⟨-, -, frames', assigned, written, seen⟩ :=
    (lookups_agree frames ⟨2, [1, 0]⟩ "x" 9 7).1 1 1 near
  refine ⟨near, frames', assigned, (seen ⟨1, [0]⟩ 0).1 rfl, ?_⟩
  rw [written.lookup 0 "x"]
  decide

end Lox
