import Lox.Proofs.Evaluation.Steps
import Lox.Proofs.Resolution.Scoping

/-!
# Environments that fit the open scopes

A chain of frames covers a list of scopes if it has one frame for each of them, in which the names
are bound that the scope allows to be read, and the frame of the globals at its end.  A function is
kept with the chain of its declaration; that chain covers the scopes its body was resolved in, at
all later times, because names are bound and never removed.

Two things have to be known about a function that is called long after its declaration: which
environment its body runs in, and that this environment still is what it was.  The first is a
property of values.  The second is why it is stated with `Grows`, a relation between tables of
frames that everything the evaluator does stays in, and why all properties here are shown to be
stable under it.

* `Frames.Covers` — a chain covers scopes.
* `Value.Ok`, `Machine.Ok` — every function in reach has such a chain.
* `Machine.Evolves` — what a step can do to the frames.
* `Eval.Keeps` — a step keeps a machine so.
-/

namespace Lox

open Resolution

/-! ## Chains and scopes

Frames hold the names that scopes let be read.  They may hold more of them: a function may be
defined in a frame before the scope has it. -/

/-- The names that a scope allows to be read are bound in a frame. -/
structure Frames.Holds (frames : Frames Value) (frame : FrameId) (s : Scope) : Prop where
  exists_frame : frame < frames.size
  binds : ∀ name, s.names.lookup name = some true → (frames.bindings frame).binds name = true

/-- A chain has a frame for each of the scopes, and then the frame of the globals. -/
def Frames.Covers (frames : Frames Value) : List FrameId → Scopes → Prop
  | [frame], [] => frame = 0 ∧ 0 < frames.size
  | frame :: chain, s :: scopes => frames.Holds frame s ∧ frames.Covers chain scopes
  | _, _ => False

namespace Frames

variable {frames frames' : Frames Value} {chain : List FrameId} {scopes : Scopes}

/-- Names are bound and never removed. -/
structure Grows (frames frames' : Frames Value) : Prop where
  size : frames.size ≤ frames'.size
  binds : ∀ f name, (frames.bindings f).binds name = true → (frames'.bindings f).binds name = true

theorem Grows.refl : Grows frames frames :=
  ⟨Nat.le_refl _, fun _ _ h => h⟩

theorem Grows.trans {frames'' : Frames Value} (h : Grows frames frames')
    (h' : Grows frames' frames'') : Grows frames frames'' :=
  ⟨Nat.le_trans h.size h'.size, fun f x hx => h'.binds f x (h.binds f x hx)⟩

/-- A frame still holds what it held. -/
theorem Holds.mono {frame : FrameId} {s : Scope} (h : frames.Holds frame s)
    (grows : Grows frames frames') : frames'.Holds frame s :=
  ⟨Nat.lt_of_lt_of_le h.exists_frame grows.size, fun x hx => grows.binds _ x (h.binds x hx)⟩

/-- A chain still covers what it covered. -/
theorem Covers.mono (h : frames.Covers chain scopes) (grows : Grows frames frames') :
    frames'.Covers chain scopes := by
  induction scopes generalizing chain with
  | nil =>
      rcases chain with _ | ⟨frame, _ | ⟨_, _⟩⟩
      · exact h.elim
      · exact ⟨h.1, Nat.lt_of_lt_of_le h.2 grows.size⟩
      · exact h.elim
  | cons s scopes ih =>
      rcases chain with _ | ⟨frame, chain⟩
      · exact h.elim
      · rcases chain with _ | ⟨next, chain⟩
        · exact absurd h.2 (by cases scopes <;> simp [Covers])
        · exact ⟨h.1.mono grows, ih h.2⟩

/-- The innermost frame holds the innermost scope, and the others cover the others. -/
theorem covers_cons {frame : FrameId} {s : Scope} :
    frames.Covers (frame :: chain) (s :: scopes) ↔
      frames.Holds frame s ∧ frames.Covers chain scopes := by
  cases chain <;> simp [Covers]

/-- The frame at a distance is the one of the scope at that distance. -/
theorem Covers.holds (h : frames.Covers chain scopes) {distance : Nat} {s : Scope}
    (hs : scopes[distance]? = some s) :
    ∃ frame, chain[distance]? = some frame ∧ frames.Holds frame s := by
  induction scopes generalizing chain distance with
  | nil => simp at hs
  | cons t scopes ih =>
      rcases chain with _ | ⟨frame, chain⟩
      · exact h.elim
      · obtain ⟨holds, covers⟩ := covers_cons.1 h
        cases distance with
        | zero =>
            obtain rfl : t = s := by simpa using hs
            exact ⟨frame, rfl, holds⟩
        | succ distance => exact ih covers (by simpa using hs)

end Frames

/-! ## Functions with their environments

A function is well if its chain covers the scopes of its body; a machine is if all values in it are.
-/

/-- A function has the environment of scopes that its body was resolved in. -/
def Callable.Ok (l : Ledger) (frames : Frames Value) : Callable → Prop
  | .function _ parameters body closure => ∃ scopes opened inner,
      frames.Covers closure.frames scopes ∧ scopes.Settled ∧
        scopes.openFunction parameters = .ok opened ∧ Stmt.ResolvedAll l opened body inner
  | _ => True

/-- If a value is a function, it has its environment. -/
def Value.Ok (l : Ledger) (frames : Frames Value) : Value → Prop
  | .callable _ c => c.Ok l frames
  | _ => True

/-- Every function in a frame or in a field has its environment. -/
structure Machine.Ok (l : Ledger) (m : Machine) : Prop where
  distances : m.distances = l.distances
  frames : ∀ f name v, (m.frames.bindings f).lookup name = some v → v.Ok l m.frames
  objects : ∀ (i : Nat) name v, (m.objects[i]?.getD []).lookup name = some v → v.Ok l m.frames

section
variable {l l' : Ledger} {frames frames' : Frames Value}

/-- A function stays well when frames grow and when programs are added. -/
theorem Callable.Ok.mono {c : Callable} (h : c.Ok l frames) (hl : l.Extends l')
    (grows : frames.Grows frames') : c.Ok l' frames' := by
  cases c with
  | host | cls => trivial
  | function name parameters body closure =>
      obtain ⟨scopes, opened, inner, covers, settled, ho, hb⟩ := h
      exact ⟨scopes, opened, inner, covers.mono grows, settled, ho, Stmt.ResolvedAll.mono hl hb⟩

theorem Value.Ok.mono {v : Value} (h : v.Ok l frames) (hl : l.Extends l')
    (grows : frames.Grows frames') : v.Ok l' frames' := by
  cases v with
  | callable i c => exact Callable.Ok.mono h hl grows
  | _ => trivial

/-- A function that is whole stays so when the frames grow, as they do while a program runs. -/
theorem Value.Ok.grow {v : Value} (h : v.Ok l frames) (grows : frames.Grows frames') :
    v.Ok l frames' :=
  h.mono (.refl l) grows

end

/-! ## What a step can do

A step can bind names and make frames.  Whether it can bind a new name in the current frame is told
apart, for only declarations do, and while an initializer is evaluated that matters. -/

/-- What a step can do to a machine.  Names are bound in the innermost frame only, and only if the
step is one that `defines`; all other frames that were there keep the names they have. -/
structure Machine.Evolves (defines : Bool) (m n : Machine) : Prop where
  env : n.env = m.env
  depth : n.depth = m.depth
  distances : n.distances = m.distances
  grows : m.frames.Grows n.frames
  kept : ∀ f < m.frames.size, (defines = true → f ≠ m.env.innermost) → ∀ name,
    (n.frames.bindings f).binds name = true → (m.frames.bindings f).binds name = true

namespace Machine.Evolves

variable {defines : Bool} {m n k : Machine}

theorem refl : Evolves defines m m :=
  ⟨rfl, rfl, rfl, .refl, fun _ _ _ _ h => h⟩

theorem trans (h : Evolves defines m n) (h' : Evolves defines n k) : Evolves defines m k := by
  refine ⟨h'.env.trans h.env, h'.depth.trans h.depth, h'.distances.trans h.distances,
    h.grows.trans h'.grows, fun f hf hi x hx => h.kept f hf hi x ?_⟩
  exact h'.kept f (Nat.lt_of_lt_of_le hf h.grows.size) (by rwa [h.env]) x hx

/-- A step that binds no new name in the current frame. -/
theorem weaken (h : Evolves false m n) : Evolves defines m n :=
  ⟨h.env, h.depth, h.distances, h.grows, fun f hf _ => h.kept f hf nofun⟩

/-- A step that leaves the frames alone. -/
theorem of_frames (env : n.env = m.env) (depth : n.depth = m.depth)
    (distances : n.distances = m.distances) (frames : n.frames = m.frames) :
    Evolves defines m n :=
  ⟨env, depth, distances, frames ▸ .refl, fun _ _ _ _ h => frames ▸ h⟩

end Machine.Evolves

/-- A step, however it ends, leaves every function its environment, and its result is such that
`Q`. -/
def Eval.Keeps {α : Type} (defines : Bool) (l : Ledger) (step : Eval α) (m : Machine)
    (Q : α → Machine → Prop) : Prop :=
  match step m with
  | .ok a n => n.Ok l ∧ m.Evolves defines n ∧ Q a n
  | .error _ n => n.Ok l ∧ m.Evolves defines n

namespace Eval.Keeps

variable {α β : Type} {defines : Bool} {l : Ledger} {m : Machine}

theorem of_eq_ok {step : Eval α} {Q : α → Machine → Prop} {a : α} {n : Machine}
    (hs : step m = .ok a n) (hn : n.Ok l) (evolves : m.Evolves defines n) (hq : Q a n) :
    Keeps defines l step m Q := by
  simp only [Keeps, hs]
  exact ⟨hn, evolves, hq⟩

theorem of_eq_error {step : Eval α} {Q : α → Machine → Prop} {stop : Stop}
    (hs : step m = .error stop m) (hm : m.Ok l) : Keeps defines l step m Q := by
  simp only [Keeps, hs]
  exact ⟨hm, .refl⟩

theorem of_ok {step : Eval α} {Q : α → Machine → Prop} {a : α} {n : Machine}
    (h : Keeps defines l step m Q) (hs : step m = .ok a n) :
    n.Ok l ∧ m.Evolves defines n ∧ Q a n := by
  simpa only [Keeps, hs] using h

theorem pure {a : α} {Q : α → Machine → Prop} (hm : m.Ok l) (h : Q a m) :
    Keeps defines l (pure a) m Q :=
  ⟨hm, .refl, h⟩

theorem throw {stop : Stop} {Q : α → Machine → Prop} (hm : m.Ok l) :
    Keeps defines l (throw stop) m Q :=
  ⟨hm, .refl⟩

theorem fail {line : Nat} {fault : RuntimeFault} {Q : α → Machine → Prop} (hm : m.Ok l) :
    Keeps defines l (fail line fault) m Q :=
  throw hm

theorem bind {x : Eval α} {f : α → Eval β} {Q : α → Machine → Prop} {R : β → Machine → Prop}
    (hx : Keeps defines l x m Q)
    (hf : ∀ a n, n.Ok l → m.Evolves defines n → Q a n → Keeps defines l (f a) n R) :
    Keeps defines l (x >>= f) m R := by
  unfold Keeps
  cases hm : x m with
  | ok a n =>
      obtain ⟨hn, evolves, ha⟩ := hx.of_ok hm
      have hfa := hf a n hn evolves ha
      rw [bind_ok hm]
      unfold Keeps at hfa
      cases hk : f a n with
      | ok b k =>
          rw [hk] at hfa
          exact ⟨hfa.1, evolves.trans hfa.2.1, hfa.2.2⟩
      | error stop k =>
          rw [hk] at hfa
          exact ⟨hfa.1, evolves.trans hfa.2⟩
  | error stop n =>
      simp only [Keeps, hm] at hx
      rw [bind_error hm]
      exact hx

theorem weaken {step : Eval α} {Q : α → Machine → Prop} (h : Keeps false l step m Q) :
    Keeps defines l step m Q := by
  unfold Keeps at *
  cases hm : step m with
  | ok a n =>
      rw [hm] at h
      exact ⟨h.1, h.2.1.weaken, h.2.2⟩
  | error stop n =>
      rw [hm] at h
      exact ⟨h.1, h.2.weaken⟩

/-- A weaker property of what is left. -/
theorem mono {step : Eval α} {Q R : α → Machine → Prop} (h : Keeps defines l step m Q)
    (hQ : ∀ a n, n.Ok l → m.Evolves defines n → Q a n → R a n) : Keeps defines l step m R := by
  unfold Keeps at *
  cases hm : step m with
  | ok a n =>
      rw [hm] at h
      exact ⟨h.1, h.2.1, hQ a n h.1 h.2.1 h.2.2⟩
  | error stop n =>
      rw [hm] at h
      exact h

end Eval.Keeps

end Lox
