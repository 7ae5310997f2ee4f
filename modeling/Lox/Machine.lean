import Lox.Resolution
import Lox.Value

/-!
# The state of a run

* `Sink` — where printed text goes; it can be full, and it can fail to be flushed.
* `Machine` — everything a running program can change.
* `Eval` — a step of a run: it changes the machine and yields a result, fails, or gives up because
  its bound is used up.  A step that fails keeps all changes made before.

Every operation on the machine that can fail, or that must undo what it did on the way out, is
here; the evaluator is written in terms of them.
-/

namespace Lox

/-! ## Printed text -/

/-- Where printed text goes. -/
structure Sink where
  /-- The text that was written and not yet taken out. -/
  text : String := ""
  /-- How many line ends have been written in all. -/
  lineEnds : Nat := 0
  /-- How many line ends can be written; after that every write fails. -/
  capacity? : Option Nat := none
  /-- Whether a flush fails. -/
  flushFails : Bool := false

/-- Whether a text can be written: always if it is empty, else as long as the sink is not full. -/
def Sink.accepts (sink : Sink) (text : String) : Bool :=
  text.isEmpty ||
    match sink.capacity? with
    | some capacity => decide (sink.lineEnds < capacity)
    | none => true

/-- The sink after a text was written. -/
def Sink.append (sink : Sink) (text : String) : Sink :=
  { sink with
    text := sink.text ++ text
    lineEnds := sink.lineEnds + text.toList.count '\n' }

/-! ## The machine -/

/-- Everything a running program can change. -/
structure Machine where
  /-- All frames; the first one holds the globals. -/
  frames : Frames Value
  /-- The environment of what is being evaluated. -/
  env : Env
  /-- The fields of all objects, by identity. -/
  objects : Array (Bindings Value) := #[]
  /-- How many functions and classes have been made; the next one has this identity. -/
  callables : Nat
  /-- How many calls are in progress. -/
  depth : Nat := 0
  /-- The distances of the accesses in all programs that were resolved. -/
  distances : Distances := {}
  sink : Sink := {}
  /-- What the clock shows when it is read for the `n`-th time. -/
  clock : Nat → Float
  /-- How often the clock has been read. -/
  readings : Nat := 0

/-- Why a step did not yield a result. -/
inductive Stop where
  | failed (d : Diagnostic)
  /-- The bound of the step was used up. -/
  | exhausted
  deriving DecidableEq, Repr

/-- A step of a run. -/
abbrev Eval := EStateM Stop Machine

namespace Machine

/-- The environment that holds only the globals. -/
def globals : Env :=
  ⟨0, []⟩

/-- A machine on which nothing has run; the one global is the function `clock`. -/
def initial (clock : Nat → Float) (sink : Sink) : Machine where
  frames := #[[("clock", .callable 0 (.host .clock))]]
  env := globals
  callables := 1
  sink := sink
  clock := clock

/-- The frame that a resolved or global name is written in, if that frame binds it. -/
def binder? (m : Machine) (id : NodeId) (name : String) : Option FrameId :=
  match m.distances[id]? with
  | some distance => m.frames.binderAt? m.env distance name
  | none => m.frames.binder? globals name

/-- The value of a resolved or global name. -/
def find? (m : Machine) (id : NodeId) (name : String) : Option Value :=
  match m.distances[id]? with
  | some distance => m.frames.findAt? m.env distance name
  | none => m.frames.find? globals name

/-- Defines a global. -/
def defineGlobal (m : Machine) (name : String) (value : Value) : Machine :=
  { m with frames := m.frames.define globals name value }

/-- A machine with the value of a new callable, which nothing refers to yet. -/
def makeCallable (m : Machine) (c : Callable) : Value × Machine :=
  (.callable m.callables c, { m with callables := m.callables + 1 })

/-- What was printed, and the machine with that text taken out. -/
def takeText (m : Machine) : String × Machine :=
  (m.sink.text, { m with sink := { m.sink with text := "" } })

end Machine

/-! ## Steps -/

namespace Eval

variable {α : Type}

/-- Fails with a cause that is blamed on a line. -/
def fail (line : Nat) (fault : RuntimeFault) : Eval α :=
  throw (.failed (.runtime line fault))

/-- Gives up. -/
def exhausted : Eval α :=
  throw .exhausted

/-- The value of a variable. -/
def readVariable (id : NodeId) (name : Token) : Eval Value := fun m =>
  match m.find? id name.lexeme with
  | some value => .ok value m
  | none => fail name.line (.undefinedVariable name.lexeme) m

/-- Gives a variable that has a value a new one. -/
def writeVariable (id : NodeId) (name : Token) (value : Value) : Eval Unit := fun m =>
  match m.binder? id name.lexeme with
  | some frame => .ok () { m with frames := m.frames.write frame name.lexeme value }
  | none => fail name.line (.undefinedVariable name.lexeme) m

/-- Binds a name in the current scope. -/
def define (name : String) (value : Value) : Eval Unit := fun m =>
  .ok () { m with frames := m.frames.define m.env name value }

/-- Makes a function or class and binds a name to it in the current scope. -/
def defineCallable (name : String) (c : Callable) : Eval Unit := fun m =>
  let (value, m) := m.makeCallable c
  define name value m

/-- A new object of a class. -/
def newObject (className : String) : Eval Value := fun m =>
  .ok (.object m.objects.size className) { m with objects := m.objects.push [] }

/-- The field of an object. -/
def readField (identity : Nat) (name : Token) : Eval Value := fun m =>
  match (m.objects[identity]?.getD []).lookup name.lexeme with
  | some value => .ok value m
  | none => fail name.line (.undefinedProperty name.lexeme) m

/-- Gives the field of an object a value, whether it had one or not. -/
def writeField (identity : Nat) (name : Token) (value : Value) : Eval Unit := fun m =>
  .ok () { m with objects := m.objects.modify identity (Bindings.insert name.lexeme value) }

/-- What the clock shows. -/
def readClock : Eval Value := fun m =>
  .ok (.number (m.clock m.readings)) { m with readings := m.readings + 1 }

/-- Writes a text; a sink that is full makes the step fail. -/
def write (text : String) : Eval Unit := fun m =>
  if m.sink.accepts text then .ok () { m with sink := m.sink.append text }
  else .error (.failed (.output .sinkFull)) m

/-- Prints a line: its text, then its end. -/
def printLine (text : String) : Eval Unit := do
  write text
  write "\n"

/-- Flushes the sink. -/
def flush : Eval Unit := fun m =>
  if m.sink.flushFails then .error (.failed (.output .cannotFlush)) m else .ok () m

/-- A step in another environment.  The environment is the old one again however the step
ends. -/
def within (env : Env) (step : Eval α) : Eval α := fun m =>
  let outside := m.env
  match step { m with env } with
  | .ok a m => .ok a { m with env := outside }
  | .error stop m => .error stop { m with env := outside }

/-- A step in a new scope inside the given environment. -/
def inScope (env : Env) (step : Eval α) : Eval α := fun m =>
  within (env.push m.frames.next) step { m with frames := m.frames.grow }

/-- How many calls can be in progress. -/
def maxDepth : Nat := 512

/-- A step that is a call blamed on a line.  One call less is in progress however it ends. -/
def entering (line : Nat) (step : Eval α) : Eval α := fun m =>
  if maxDepth ≤ m.depth then fail line .stackOverflow m
  else
    match step { m with depth := m.depth + 1 } with
    | .ok a m => .ok a { m with depth := m.depth - 1 }
    | .error stop m => .error stop { m with depth := m.depth - 1 }

end Eval

end Lox
