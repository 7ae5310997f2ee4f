import Lox.Proofs.Evaluation.Steps

/-!
# What a run can get at

Which functions a run calls cannot be read off its program: it gets at them through variables,
through the environments that other functions keep, and through the fields of objects.  A region
holds all of that, and everything that is made later, so that a run does not leave it.

Programs of one session share functions through the globals, so it is not enough to look at a
program: what has been kept in variables and fields counts too.  What is named here is closed under
looking up a variable, taking the environment of a function and reading a field, which are the only
ways to a value.

* `Stmt.loopFree` — there is no loop in a statement, nor in the body of any function in it.
* `Machine.ReachesFrame`, `Machine.ReachesValue` — what a run can get at.
* `Machine.LoopFree` — no function that a run can get at has a loop in its body.
* `Region`, `Machine.Confined` — a part of a machine that a run does not leave, whose functions have
  no loops.
* `Machine.LoopFree.confined`, `Machine.Confined.loopFree` — what can be got at is such a region,
  and outside it nothing can be got at.
-/

namespace Lox

/-! ## Trees without loops

A function that is declared in a tree belongs to it, whether it is called or not. -/

mutual

/-- Whether a statement has no loop, not even in the body of a function. -/
def Stmt.loopFree : Stmt → Bool
  | .expression _ | .print _ | .var _ _ | .ret _ _ | .cls _ => true
  | .block body | .function _ _ body => Stmt.loopFreeAll body
  | .branch _ yes none => yes.loopFree
  | .branch _ yes (some no) => yes.loopFree && no.loopFree
  | .loop _ _ => false

/-- Whether statements have no loop, not even in the body of a function. -/
def Stmt.loopFreeAll : List Stmt → Bool
  | [] => true
  | s :: ss => s.loopFree && Stmt.loopFreeAll ss

end

/-! ## What a run can get at

The least frames and values that contain the globals and the current environment and are closed
under these ways. -/

mutual

/-- The frames that a run can get at: those of the globals and of the current environment, and
those that a function keeps. -/
inductive Machine.ReachesFrame (m : Machine) : FrameId → Prop
  | globals {f : FrameId} (mem : f ∈ Machine.globals.frames) : ReachesFrame m f
  | current {f : FrameId} (mem : f ∈ m.env.frames) : ReachesFrame m f
  | closure {i : Nat} {name : Token} {parameters : List Token} {body : List Stmt} {closure : Env}
      {f : FrameId} (kept : ReachesValue m (.callable i (.function name parameters body closure)))
      (mem : f ∈ closure.frames) : ReachesFrame m f

/-- The values that a run can get at: those of names in frames, and of fields of objects. -/
inductive Machine.ReachesValue (m : Machine) : Value → Prop
  | bound {f : FrameId} {name : String} {v : Value} (frame : ReachesFrame m f)
      (value : (m.frames.bindings f).lookup name = some v) : ReachesValue m v
  | field {i : Nat} {className name : String} {v : Value}
      (object : ReachesValue m (.object i className))
      (value : (m.objects[i]?.getD []).lookup name = some v) : ReachesValue m v

end

/-- No function that a run can get at has a loop in its body. -/
def Machine.LoopFree (m : Machine) : Prop :=
  ∀ i name parameters body closure,
    m.ReachesValue (.callable i (.function name parameters body closure)) →
      Stmt.loopFreeAll body = true

/-! ## Regions

What can be got at shrinks and grows while a program runs.  A region is a bound for it that is
fixed: it contains what can be got at in the beginning, and all frames and objects that are not
there yet. -/

/-- Some of the frames and objects of a machine, those that it will have later included. -/
structure Region where
  frame : FrameId → Prop
  object : Nat → Prop

/-- A function without loops, whose environment is in the region; or what is no function. -/
def Callable.Confined (r : Region) : Callable → Prop
  | .function _ _ body closure =>
      Stmt.loopFreeAll body = true ∧ ∀ f ∈ closure.frames, r.frame f
  | _ => True

/-- A value from which a run does not leave the region. -/
def Value.Confined (r : Region) : Value → Prop
  | .callable _ c => c.Confined r
  | .object i _ => r.object i
  | _ => True

/-- How a statement ends from which a run does not leave the region. -/
def Flow.Confined (r : Region) : Flow → Prop
  | .normal => True
  | .returned v _ => v.Confined r

/-- A machine on which a run does not leave the region: it starts in it, finds only what is in it,
and everything new will be in it. -/
structure Machine.Confined (r : Region) (m : Machine) : Prop where
  globals : ∀ f ∈ Machine.globals.frames, r.frame f
  current : ∀ f ∈ m.env.frames, r.frame f
  bound : ∀ f, r.frame f → ∀ name v, (m.frames.bindings f).lookup name = some v → v.Confined r
  field : ∀ i : Nat, r.object i → ∀ name v,
    (m.objects[i]?.getD []).lookup name = some v → v.Confined r
  newFrame : ∀ f, m.frames.size ≤ f → r.frame f
  newObject : ∀ i, m.objects.size ≤ i → r.object i

/-- What a run can get at, and everything new. -/
def Machine.region (m : Machine) : Region where
  frame f := m.ReachesFrame f ∨ m.frames.size ≤ f
  object i := (∃ className, m.ReachesValue (.object i className)) ∨ m.objects.size ≤ i

namespace Machine

variable {m : Machine} {r : Region}

/-- A value that can be got at belongs to the region of all that can be. -/
theorem LoopFree.value_confined (h : m.LoopFree) {v : Value} (reached : m.ReachesValue v) :
    v.Confined m.region := by
  cases v with
  | callable i c =>
      cases c with
      | function name parameters body closure =>
          exact ⟨h _ _ _ _ _ reached, fun f mem => .inl (.closure reached mem)⟩
      | _ => trivial
  | object i className => exact .inl ⟨className, reached⟩
  | _ => trivial

/-- A frame or object that there is not yet holds nothing. -/
theorem LoopFree.confined (h : m.LoopFree) : m.Confined m.region where
  globals _ mem := .inl (.globals mem)
  current _ mem := .inl (.current mem)
  bound f hf name v hv := by
    rcases hf with reached | new
    · exact h.value_confined (.bound reached hv)
    · simp [Frames.bindings, Array.getElem?_eq_none new] at hv
  field i hi name v hv := by
    rcases hi with ⟨className, reached⟩ | new
    · exact h.value_confined (.field reached hv)
    · simp [Array.getElem?_eq_none new] at hv
  newFrame _ new := .inr new
  newObject _ new := .inr new

namespace Confined

mutual

/-- A run gets at no frame outside the region that confines its machine. -/
theorem reachesFrame (h : m.Confined r) : ∀ {f : FrameId}, m.ReachesFrame f → r.frame f
  | _, .globals mem => h.globals _ mem
  | _, .current mem => h.current _ mem
  | _, .closure kept mem => (h.reachesValue kept).2 _ mem

/-- Nor at any value outside it. -/
theorem reachesValue (h : m.Confined r) : ∀ {v : Value}, m.ReachesValue v → v.Confined r
  | _, .bound frame value => h.bound _ (h.reachesFrame frame) _ _ value
  | _, .field object value => h.field _ (h.reachesValue object) _ _ value

end

/-- So no function that it can get at has a loop. -/
theorem loopFree (h : m.Confined r) : m.LoopFree :=
  fun _ _ _ _ _ reached => (h.reachesValue reached).1

/-! What the operations on a machine leave. -/

theorem find? (h : m.Confined r) {id : NodeId} {name : String} {v : Value}
    (hv : m.find? id name = some v) : v.Confined r := by
  unfold Machine.find? at hv
  split at hv
  · obtain ⟨f, hf, hv⟩ := Option.bind_eq_some_iff.1 hv
    exact h.bound f (h.current f (List.mem_of_getElem? hf)) name v hv
  · obtain ⟨f, hf, hv⟩ := List.exists_of_findSome?_eq_some hv
    exact h.bound f (h.globals f hf) name v hv

theorem bind (h : m.Confined r) (f : FrameId) (name : String) {v : Value} (hv : v.Confined r) :
    (m.bind f name v).Confined r where
  globals := h.globals
  current := h.current
  bound g hg other w hw := by
    rw [Machine.bind, Frames.bindings_write] at hw
    split at hw
    next same =>
      rw [Bindings.lookup_insert] at hw
      split at hw
      · exact Option.some.inj hw ▸ hv
      · exact h.bound f (same.1 ▸ hg) other w hw
    next => exact h.bound g hg other w hw
  field := h.field
  newFrame g new := h.newFrame g (by simpa [Machine.bind] using new)
  newObject := h.newObject

theorem opened (h : m.Confined r) {env : Env} (henv : ∀ f ∈ env.frames, r.frame f) :
    (m.opened env).Confined r where
  globals := h.globals
  current := by
    intro f mem
    rcases List.mem_cons.1 mem with rfl | outer
    · exact h.newFrame _ (Nat.le_refl _)
    · exact henv f outer
  bound f hf name v hv := h.bound f hf name v (by rwa [Machine.opened, Frames.bindings_grow] at hv)
  field := h.field
  newFrame f new := by
    refine h.newFrame f (Nat.le_of_succ_le ?_)
    simpa [Machine.opened] using new
  newObject := h.newObject

theorem within (h : m.Confined r) {env : Env} (henv : ∀ f ∈ env.frames, r.frame f) :
    (m.within env).Confined r :=
  ⟨h.globals, henv, h.bound, h.field, h.newFrame, h.newObject⟩

theorem withDepth (h : m.Confined r) (depth : Nat) : (m.withDepth depth).Confined r :=
  ⟨h.globals, h.current, h.bound, h.field, h.newFrame, h.newObject⟩

theorem withObject (h : m.Confined r) :
    ({ m with objects := m.objects.push [] } : Machine).Confined r where
  globals := h.globals
  current := h.current
  bound := h.bound
  field i hi name v hv := by
    refine h.field i hi name v ?_
    rw [Array.getElem?_push] at hv
    split at hv
    · simp at hv
    · exact hv
  newFrame := h.newFrame
  newObject i new := h.newObject i (Nat.le_of_succ_le (by simpa using new))

theorem withField (h : m.Confined r) (i : Nat) (name : String) {v : Value} (hv : v.Confined r) :
    ({ m with objects := m.objects.modify i (Bindings.insert name v) } : Machine).Confined r where
  globals := h.globals
  current := h.current
  bound := h.bound
  field j hj other w hw := by
    rw [Array.getElem?_modify] at hw
    split at hw
    next same =>
      subst same
      cases hi : m.objects[i]? with
      | none => simp [hi] at hw
      | some fields =>
          simp only [hi, Option.map_some, Option.getD_some, Bindings.lookup_insert] at hw
          split at hw
          · exact Option.some.inj hw ▸ hv
          · exact h.field i hj other w (by rwa [hi, Option.getD_some])
    next => exact h.field j hj other w hw
  newFrame := h.newFrame
  newObject j new := h.newObject j (by simpa using new)

end Confined

end Machine

end Lox
