import Lox.Proofs.Likeness.Trees
import Lox.Proofs.Evaluation.Steps

/-!
# Machines that mean the same

Two runs side by side make their frames in the same order, but for the frames of braces that only
the second program has.  A world says which frame of the second run stands for each frame of the
first; it only ever grows.

* `World`, `Chain` — frames side by side, and the chains of two environments.
* `Value.Like`, `Frames.Like`, `Machine.Like` — what the runs have made so far means the same.
* `Machine.Alike` — and they are at the same place of their programs.
-/

namespace Lox

/-- For each frame of the first run, the one of the second that stands for it, and whether its
variables are renamed. -/
abbrev World := List (FrameId × Bool)

section
variable (L : Likeness) (w : World)

/-- Chains of frames for the scopes around one place. -/
inductive Chain : List Level → List FrameId → List FrameId → Prop
  | globals (h : w[0]? = some (0, false)) : Chain [] [0] [0]
  | shared {levels renamed f f' fs fs'} (hf : w[f]? = some (f', renamed))
      (hfs : Chain levels fs fs') : Chain (.shared renamed :: levels) (f :: fs) (f' :: fs')
  | extra {levels f' fs fs'} (allowed : L.braces = true) (hfs : Chain levels fs fs') :
      Chain (.extra :: levels) fs (f' :: fs')

/-! ## Values and frames side by side

Numbers, strings and the other plain values stand for themselves.  Functions correspond if their
bodies mean the same inside the chains that they have kept. -/

/-- Functions that do the same, and the same otherwise. -/
inductive Callable.Like : Callable → Callable → Prop
  | host (f : HostFunction) : Like (.host f) (.host f)
  | cls (name : String) : Like (.cls name) (.cls name)
  | function {levels renamed name name' parameters parameters' body body' closure closure'}
      (hname : name.Like L false name') (chain : Chain L w levels closure.frames closure'.frames)
      (hparameters : List.Forall₂ (Token.Like L renamed) parameters parameters')
      (hbody : Stmt.LikeAll L (.shared renamed :: levels) body body') :
      Like (.function name parameters body closure) (.function name' parameters' body' closure')

/-- Values that are the same but for what functions do, which is alike. -/
inductive Value.Like : Value → Value → Prop
  | nil : Like .nil .nil
  | bool (b : Bool) : Like (.bool b) (.bool b)
  | number (x : Float) : Like (.number x) (.number x)
  | string (s : String) : Like (.string s) (.string s)
  | callable (identity : Nat) {c c' : Callable} (h : c.Like L w c') :
      Like (.callable identity c) (.callable identity c')
  | object (identity : Nat) (className : String) :
      Like (.object identity className) (.object identity className)

/-- Names that correspond are bound to values that mean the same. -/
def Bindings.Like (renamed : Bool) (b b' : Bindings Value) : Prop :=
  ∀ x, Option.Rel (Value.Like L w) (b.lookup x) (b'.lookup (L.name renamed x))

/-- Frames side by side. -/
structure Frames.Like (frames frames' : Frames Value) : Prop where
  size : w.length = frames.size
  range : ∀ p ∈ w, p.1 < frames'.size
  nodup : (w.map Prod.fst).Nodup
  bindings : ∀ (f f' : FrameId) renamed, w[f]? = some (f', renamed) →
    Bindings.Like L w renamed (frames.bindings f) (frames'.bindings f')
  /-- Without braces all frames have the same numbers. -/
  aligned : L.braces = false →
    frames'.size = frames.size ∧ ∀ (f f' : FrameId) renamed, w[f]? = some (f', renamed) → f' = f

/-- Machines that mean the same, but for the environments they are in. -/
structure Machine.Like (m m' : Machine) : Prop where
  left : m.distances = L.left
  right : m'.distances = L.right
  globals : w[0]? = some (0, false)
  frames : m.frames.Like L w m'.frames
  objects : m'.objects.size = m.objects.size
  fields : ∀ i : Nat, Bindings.Like L w false (m.objects[i]?.getD []) (m'.objects[i]?.getD [])
  callables : m'.callables = m.callables
  depth : m'.depth = m.depth
  sink : m'.sink = m.sink
  clock : m'.clock = m.clock
  readings : m'.readings = m.readings

/-- Machines at the same place of their programs. -/
structure Machine.Alike (levels : List Lox.Level) (m m' : Machine) : Prop where
  machine : m.Like L w m'
  chain : Chain L w levels m.env.frames m'.env.frames

end

/-! ## Later worlds

When a frame is made, the world grows by it; what was alike in the world before is so in the later
one. -/

section
variable {L : Likeness} {w w' : World} {levels : List Lox.Level} {fs fs' : List FrameId}

/-- A frame keeps its partner. -/
theorem World.getElem?_mono (h : w <+: w') {f : FrameId} {p : FrameId × Bool} (hp : w[f]? = some p) :
    w'[f]? = some p := by
  obtain ⟨more, rfl⟩ := h
  have hf : f < w.length := (List.getElem?_eq_some_iff.1 hp).1
  rwa [List.getElem?_append_left hf]

/-- Chains that correspond still do. -/
theorem Chain.mono (hc : Chain L w levels fs fs') (h : w <+: w') : Chain L w' levels fs fs' := by
  induction hc with
  | globals h0 => exact .globals (World.getElem?_mono h h0)
  | shared hf _ ih => exact .shared (World.getElem?_mono h hf) ih
  | extra allowed _ ih => exact .extra allowed ih

/-- So do functions that correspond. -/
theorem Callable.Like.mono {c c' : Callable} (hc : c.Like L w c') (h : w <+: w') :
    c.Like L w' c' := by
  cases hc with
  | host f => exact .host f
  | cls name => exact .cls name
  | function hname chain hparameters hbody =>
      exact .function hname (chain.mono h) hparameters hbody

/-- So do values. -/
theorem Value.Like.mono {v v' : Value} (hv : v.Like L w v') (h : w <+: w') : v.Like L w' v' := by
  cases hv with
  | callable i hc => exact .callable i (hc.mono h)
  | nil => exact .nil
  | bool b => exact .bool b
  | number x => exact .number x
  | string s => exact .string s
  | object i c => exact .object i c

theorem rel_imp {α β : Type} {r s : α → β → Prop} (h : ∀ a b, r a b → s a b) :
    ∀ {a? : Option α} {b? : Option β}, Option.Rel r a? b? → Option.Rel s a? b?
  | _, _, .none => .none
  | _, _, .some hab => .some (h _ _ hab)

theorem Bindings.Like.mono {renamed : Bool} {b b' : Bindings Value}
    (hb : Bindings.Like L w renamed b b') (h : w <+: w') : Bindings.Like L w' renamed b b' :=
  fun x => rel_imp (fun _ _ value => value.mono h) (hb x)

/-! ## Places of variables

A distance in the first program leads to the same variable as the distance that stands for it in the
second. -/

/-- The frames at corresponding distances stand for each other. -/
theorem Chain.locate (hc : Chain L w levels fs fs') {distance distance' : Nat} {renamed : Bool}
    (h : Level.locate levels distance = some (distance', renamed)) :
    ∃ f f', fs[distance]? = some f ∧ fs'[distance']? = some f' ∧ w[f]? = some (f', renamed) := by
  induction hc generalizing distance distance' with
  | globals => cases h
  | @shared levels r f f' fs fs' hf _ ih =>
      cases distance with
      | zero =>
          obtain ⟨rfl, rfl⟩ := Prod.mk.inj (Option.some.inj h)
          exact ⟨f, f', rfl, rfl, hf⟩
      | succ distance =>
          obtain ⟨⟨d, r⟩, hd, heq⟩ := Option.map_eq_some_iff.1 h
          obtain ⟨rfl, rfl⟩ := Prod.mk.inj heq
          exact ih hd
  | extra _ _ ih =>
      obtain ⟨⟨d, r⟩, hd, heq⟩ := Option.map_eq_some_iff.1 h
      obtain ⟨rfl, rfl⟩ := Prod.mk.inj heq
      exact ih hd

/-- The innermost frames stand for each other, unless there are braces only the second program
has. -/
theorem Chain.innermost {env env' : Env} (hc : Chain L w levels env.frames env'.frames)
    {renamed : Bool} (h : Level.innermost? levels = some renamed) :
    w[env.innermost]? = some (env'.innermost, renamed) := by
  obtain ⟨f, fs⟩ := env
  obtain ⟨f', fs'⟩ := env'
  cases hc with
  | globals h0 =>
      obtain rfl := Option.some.inj h
      exact h0
  | shared hf _ =>
      obtain rfl := Option.some.inj h
      exact hf
  | extra => cases h

/-! ## Bindings side by side

A frame binds a name if its partner binds the name that stands for it, to values that correspond. -/

namespace Bindings.Like

variable {renamed : Bool} {b b' : Bindings Value}

theorem nil : Bindings.Like L w renamed [] [] :=
  fun _ => .none

/-- A name is bound in neither, or in both to values that correspond. -/
theorem lookup (h : Bindings.Like L w renamed b b') (x : String) :
    (b.lookup x = none ∧ b'.lookup (L.name renamed x) = none) ∨
      ∃ v v', b.lookup x = some v ∧ b'.lookup (L.name renamed x) = some v' ∧ v.Like L w v' := by
  generalize hb : b.lookup x = found, hb' : b'.lookup (L.name renamed x) = found'
  cases hb ▸ hb' ▸ h x with
  | none => exact .inl ⟨rfl, rfl⟩
  | some hv => exact .inr ⟨_, _, rfl, rfl, hv⟩

theorem binds (h : Bindings.Like L w renamed b b') (x : String) :
    b'.binds (L.name renamed x) = b.binds x := by
  rcases h.lookup x with ⟨hb, hb'⟩ | ⟨v, v', hb, hb', -⟩
  · simp [Bindings.binds, hb, hb']
  · simp [Bindings.binds, hb, hb']

/-- Frames stay alike when both bind a name to values that correspond. -/
theorem insert (h : Bindings.Like L w renamed b b') (x : String) {v v' : Value}
    (hv : v.Like L w v') :
    Bindings.Like L w renamed (b.insert x v) (b'.insert (L.name renamed x) v') := by
  intro y
  rw [Bindings.lookup_insert, Bindings.lookup_insert]
  by_cases hy : y = x
  · rw [if_pos hy, if_pos (congrArg _ hy)]
    exact .some hv
  · rw [if_neg hy, if_neg fun same => hy (Likeness.name_inj.1 same)]
    exact h y

end Bindings.Like

end

end Lox
