import Lox.Diagnostic

/-!
# Environments

A scope is a frame of bindings; frames live in one growing table and are never removed.  An
environment is the chain of the frames that are in scope, innermost first.  A chain is a list of
frame numbers, so environments that share an outer part share its frames, and a write through one
is seen through all; and looking along a chain is recursion on a list.

* `Bindings` — names and their values; `lookup` and `insert`.
* `Env` — a non-empty chain of frames.
* `Frames` — the table of frames; reads and writes by name along a chain (`find?`, `assign?`) and
  at a fixed distance (`findAt?`, `assignAt?`).
* `Env.get`, `Env.assign`, `Env.getAt`, `Env.assignAt` — the same as steps on the table, which fail
  on a line where there is nothing to read or to write.

A write never makes a binding; only `define` does, in the innermost frame.
-/

namespace Lox

/-! ## Bindings -/

/-- The values bound to names, each name once, in the order in which they were first bound. -/
abbrev Bindings (α : Type) := List (String × α)

namespace Bindings

variable {α : Type}

/-- Binds a name, in the place of an older binding if there is one. -/
def insert (name : String) (value : α) : Bindings α → Bindings α
  | [] => [(name, value)]
  | (key, old) :: rest =>
    if key = name then (key, value) :: rest else (key, old) :: insert name value rest

/-- Whether a name is bound. -/
def binds (bindings : Bindings α) (name : String) : Bool :=
  (bindings.lookup name).isSome

@[simp]
theorem lookup_insert_self (name : String) (value : α) (bindings : Bindings α) :
    (insert name value bindings).lookup name = some value := by
  induction bindings with
  | nil => simp [insert]
  | cons entry rest ih =>
    obtain ⟨key, old⟩ := entry
    by_cases h : key = name
    · simp [insert, h]
    · have h' : (name == key) = false := by simpa using Ne.symm h
      simp [insert, h, List.lookup_cons, h', ih]

theorem lookup_insert_of_ne {name other : String} (h : other ≠ name) (value : α)
    (bindings : Bindings α) :
    (insert name value bindings).lookup other = bindings.lookup other := by
  induction bindings with
  | nil =>
    have h' : (other == name) = false := by simpa using h
    simp [insert, List.lookup_cons, h']
  | cons entry rest ih =>
    obtain ⟨key, old⟩ := entry
    by_cases hk : key = name
    · subst hk
      have h' : (other == key) = false := by simpa using h
      simp [insert, List.lookup_cons, h']
    · simp [insert, hk, List.lookup_cons, ih]

end Bindings

/-! ## Chains of frames -/

/-- The number of a frame in the table. -/
abbrev FrameId := Nat

/-- A chain of frames. -/
structure Env where
  innermost : FrameId
  /-- The enclosing frames, the nearest first. -/
  enclosing : List FrameId
  deriving DecidableEq, Repr

namespace Env

/-- The frames of a chain, innermost first. -/
def frames (env : Env) : List FrameId :=
  env.innermost :: env.enclosing

/-- A chain with one more frame inside. -/
def push (env : Env) (frame : FrameId) : Env :=
  ⟨frame, env.frames⟩

end Env

/-! ## The table of frames -/

/-- All frames that were ever made. -/
abbrev Frames (α : Type) := Array (Bindings α)

namespace Frames

variable {α : Type}

/-- The bindings of a frame. -/
def bindings (frames : Frames α) (frame : FrameId) : Bindings α :=
  frames[frame]?.getD []

/-- Binds a name in a frame, in the place of an older binding if there is one. -/
def write (frames : Frames α) (frame : FrameId) (name : String) (value : α) : Frames α :=
  frames.modify frame (Bindings.insert name value)

/-- The number that the next new frame will have. -/
def next (frames : Frames α) : FrameId :=
  frames.size

/-- The table with a new frame, in which nothing is bound. -/
def grow (frames : Frames α) : Frames α :=
  frames.push []

/-- Binds a name in the innermost frame. -/
def define (frames : Frames α) (env : Env) (name : String) (value : α) : Frames α :=
  frames.write env.innermost name value

/-- The innermost frame of a chain that binds a name. -/
def binder? (frames : Frames α) (env : Env) (name : String) : Option FrameId :=
  env.frames.find? fun frame => (frames.bindings frame).binds name

/-- The frame at a distance, if it binds a name. -/
def binderAt? (frames : Frames α) (env : Env) (distance : Nat) (name : String) : Option FrameId :=
  env.frames[distance]?.filter fun frame => (frames.bindings frame).binds name

/-- The value of a name, looked for along the chain. -/
def find? (frames : Frames α) (env : Env) (name : String) : Option α :=
  env.frames.findSome? fun frame => (frames.bindings frame).lookup name

/-- The value of a name in the frame at a distance. -/
def findAt? (frames : Frames α) (env : Env) (distance : Nat) (name : String) : Option α :=
  env.frames[distance]?.bind fun frame => (frames.bindings frame).lookup name

/-- Gives a name that is bound along the chain a new value. -/
def assign? (frames : Frames α) (env : Env) (name : String) (value : α) : Option (Frames α) :=
  (frames.binder? env name).map fun frame => frames.write frame name value

/-- Gives a name that is bound in the frame at a distance a new value. -/
def assignAt? (frames : Frames α) (env : Env) (distance : Nat) (name : String) (value : α) :
    Option (Frames α) :=
  (frames.binderAt? env distance name).map fun frame => frames.write frame name value

/-! ## Steps on the table -/

/-- A step on the frames of all environments, taken through one of them. -/
abbrev Step (α β : Type) := EStateM Diagnostic (Frames α) β

/-- Reads the value of a name; a name that has none is blamed on a line. -/
def look (find? : Frames α → Option α) (name : String) (line : Nat) : Step α α := fun frames =>
  match find? frames with
  | some value => .ok value frames
  | none => .error (.runtime line (.undefinedVariable name)) frames

/-- Gives a name a new value; a name that has none is blamed on a line. -/
def update (assign? : Frames α → Option (Frames α)) (name : String) (line : Nat) : Step α Unit :=
  fun frames =>
    match assign? frames with
    | some frames => .ok () frames
    | none => .error (.runtime line (.undefinedVariable name)) frames

end Frames

namespace Env

variable {α : Type}

/-- The value of a name, looked for along the chain. -/
def get (env : Env) (name : String) (line : Nat) : Frames.Step α α :=
  Frames.look (·.find? env name) name line

/-- The value of a name in the frame at a distance. -/
def getAt (env : Env) (distance : Nat) (name : String) (line : Nat) : Frames.Step α α :=
  Frames.look (·.findAt? env distance name) name line

/-- Gives a name that is bound along the chain a new value. -/
def assign (env : Env) (name : String) (value : α) (line : Nat) : Frames.Step α Unit :=
  Frames.update (·.assign? env name value) name line

/-- Gives a name that is bound in the frame at a distance a new value. -/
def assignAt (env : Env) (distance : Nat) (name : String) (value : α) (line : Nat) :
    Frames.Step α Unit :=
  Frames.update (·.assignAt? env distance name value) name line

end Env

end Lox
