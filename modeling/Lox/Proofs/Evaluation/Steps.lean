import Lox.Evaluation
import Lox.Proofs.State
import Lox.Proofs.Store.Frames

/-!
# Single steps of a run

What each operation on the machine yields and leaves, so that no later proof opens one.

Every later module sees the machine through these equations.  A property of runs is proved for each
operation by rewriting with them, and a change to what an operation does is a change here and in the
few places where that operation matters.  The two operations that come with a restoration, a scope
and a call, are written out with what they restore on success and on failure, so that nobody has to
remember it.

* `Eval.readVariable_some`, `Eval.writeVariable_none`, … — one equation for each way a step can end.
* `Machine.opened` — the machine on which the body of a new scope is run.
* `Eval.inScope_eq`, `Eval.entering_eq` — scopes and calls, with what they restore.
* `Eval.Computes` — what operators do: they yield a constant or fail, and see no machine.
-/

namespace Lox

namespace Machine

/-- The machine in a new scope inside an environment. -/
def opened (m : Machine) (env : Env) : Machine :=
  { m with frames := m.frames.grow, env := env.push m.frames.next }

/-- The machine in another environment. -/
def within (m : Machine) (env : Env) : Machine :=
  { m with env }

/-- The machine with another number of calls in progress. -/
def withDepth (m : Machine) (depth : Nat) : Machine :=
  { m with depth }

/-- The machine with a name bound in a frame. -/
def bind (m : Machine) (frame : FrameId) (name : String) (value : Value) : Machine :=
  { m with frames := m.frames.write frame name value }

/-- The frame a name is written in binds it. -/
theorem binds_of_binder? {m : Machine} {id : NodeId} {name : String} {f : FrameId}
    (h : m.binder? id name = some f) : (m.frames.bindings f).binds name = true := by
  unfold binder? at h
  split at h
  next => exact (Option.filter_eq_some_iff.1 h).2
  next =>
    have h := List.find?_some h
    exact h

/-! ## A machine on which nothing has run

Whatever is to hold of all values that a run can get at has to hold at the start.  There is one
value then, the clock, so that it is enough to say it of that one. -/

section
variable {clock : Nat → Float} {sink : Sink}

/-- The one value that a frame binds is the clock. -/
theorem lookup_initial {f : FrameId} {name : String} {v : Value}
    (h : ((initial clock sink).frames.bindings f).lookup name = some v) :
    v = .callable 0 (.host .clock) := by
  cases f with
  | zero =>
      have h : ([("clock", .callable 0 (.host .clock))] : Bindings Value).lookup name = some v := h
      rw [List.lookup_cons] at h
      split at h
      · exact (Option.some.inj h).symm
      · cases h
  | succ f => simp [initial, Frames.bindings] at h

theorem fields_initial (i : Nat) : (initial clock sink).objects[i]?.getD [] = [] := by
  simp [initial]

end

end Machine

/-- A fault of the values at hand: neither of a variable nor of a return. -/
structure RuntimeFault.OfValues (fault : RuntimeFault) : Prop where
  bound (x : String) : fault ≠ .undefinedVariable x
  inside : fault ≠ .returnOutsideFunction

namespace Eval

variable {α : Type} {m n : Machine}

/-- The stop of a step that fails with a cause blamed on a line. -/
def failure (line : Nat) (fault : RuntimeFault) : Stop :=
  .failed (.runtime line fault)

theorem fail_eq (line : Nat) (fault : RuntimeFault) :
    (fail line fault : Eval α) m = .error (failure line fault) m :=
  rfl

/-- A variable that is found is read. -/
theorem readVariable_some {id : NodeId} {name : Token} {v : Value}
    (h : m.find? id name.lexeme = some v) : readVariable id name m = .ok v m := by
  simp only [readVariable, h]

/-- One that is not found is a fault of the access. -/
theorem readVariable_none {id : NodeId} {name : Token} (h : m.find? id name.lexeme = none) :
    readVariable id name m = .error (failure name.line (.undefinedVariable name.lexeme)) m := by
  simp only [readVariable, h]
  rfl

/-- An assignment is written into the frame that binds the name. -/
theorem writeVariable_some {id : NodeId} {name : Token} {v : Value} {f : FrameId}
    (h : m.binder? id name.lexeme = some f) :
    writeVariable id name v m = .ok () (m.bind f name.lexeme v) := by
  simp only [writeVariable, h]
  rfl

/-- It fails if there is none, and writes nothing. -/
theorem writeVariable_none {id : NodeId} {name : Token} {v : Value}
    (h : m.binder? id name.lexeme = none) :
    writeVariable id name v m =
      .error (failure name.line (.undefinedVariable name.lexeme)) m := by
  simp only [writeVariable, h]
  rfl

/-- A definition goes into the innermost frame. -/
theorem define_eq (name : String) (v : Value) :
    define name v m = .ok () (m.bind m.env.innermost name v) :=
  rfl

theorem defineCallable_eq (name : String) (c : Callable) :
    defineCallable name c m = .ok ()
      (({ m with callables := m.callables + 1 } : Machine).bind m.env.innermost name
        (.callable m.callables c)) :=
  rfl

/-- A field that an object has is read. -/
theorem readField_some {i : Nat} {name : Token} {v : Value}
    (h : (m.objects[i]?.getD []).lookup name.lexeme = some v) :
    readField i name m = .ok v m := by
  simp only [readField, h]

/-- One that it has not is a fault of the access. -/
theorem readField_none {i : Nat} {name : Token}
    (h : (m.objects[i]?.getD []).lookup name.lexeme = none) :
    readField i name m = .error (failure name.line (.undefinedProperty name.lexeme)) m := by
  simp only [readField, h]
  rfl

/-- Text that the sink accepts is printed. -/
theorem write_accepted {text : String} (h : m.sink.accepts text = true) :
    write text m = .ok () { m with sink := m.sink.append text } := by
  simp only [write, h, if_true]

/-- Text that it does not accept is not, and that is a failure of its own. -/
theorem write_refused {text : String} (h : m.sink.accepts text = false) :
    write text m = .error (.failed (.output .sinkFull)) m := by
  simp only [write, h, Bool.false_eq_true, if_false]

theorem flush_done (h : m.sink.flushFails = false) : flush m = .ok () m := by
  simp only [flush, h, Bool.false_eq_true, if_false]

theorem flush_failed (h : m.sink.flushFails = true) :
    flush m = .error (.failed (.output .cannotFlush)) m := by
  simp only [flush, h, if_true]

/-- A step in another environment: the environment is the old one again. -/
theorem within_eq (env : Env) (step : Eval α) : within env step m =
    match step (m.within env) with
    | .ok a n => .ok a (n.within m.env)
    | .error stop n => .error stop (n.within m.env) :=
  rfl

/-- A step in a new scope: the environment is the old one again. -/
theorem inScope_eq (env : Env) (step : Eval α) : inScope env step m =
    match step (m.opened env) with
    | .ok a n => .ok a (n.within m.env)
    | .error stop n => .error stop (n.within m.env) :=
  rfl

/-- A call that is one too many fails before anything is done for it. -/
theorem entering_full {line : Nat} {step : Eval α} (h : maxDepth ≤ m.depth) :
    entering line step m = .error (failure line .stackOverflow) m := by
  simp only [entering, if_pos h]
  rfl

/-- A call with room for it: the number of calls in progress is one less again. -/
theorem entering_eq {line : Nat} {step : Eval α} (h : m.depth < maxDepth) :
    entering line step m =
      match step (m.withDepth (m.depth + 1)) with
      | .ok a n => .ok a (n.withDepth (n.depth - 1))
      | .error stop n => .error stop (n.withDepth (n.depth - 1)) := by
  simp only [entering, if_neg (Nat.not_le.2 h)]
  rfl

/-- A step that yields a constant, or fails with a cause that is one of values. -/
def Computes (step : Eval Value) : Prop :=
  (∃ constant, step = pure (.ofLiteral constant)) ∨
    ∃ line fault, fault.OfValues ∧ step = fail line fault

namespace Computes

theorem bool (b : Bool) : Computes (pure (.bool b)) :=
  .inl ⟨.bool b, rfl⟩

theorem number (x : Float) : Computes (pure (.number x)) :=
  .inl ⟨.number x, rfl⟩

theorem string (s : String) : Computes (pure (.string s)) :=
  .inl ⟨.string s, rfl⟩

theorem fail (line : Nat) {fault : RuntimeFault} (other : fault.OfValues) :
    Computes (Eval.fail line fault) :=
  .inr ⟨line, fault, other, rfl⟩

end Computes

end Eval

/-! ## Operators

An operator neither reads the machine nor changes it, so that all proofs about runs have the same
case for all operators. -/

/-- Operators between two numbers. -/
theorem arithmeticResult_computes (operator : Token) (x y : Float) :
    (arithmeticResult operator x y).Computes := by
  unfold arithmeticResult
  split
  · exact .number _
  · exact .number _
  · split
    · exact .fail _ ⟨nofun, nofun⟩
    · exact .number _
  · exact .bool _
  · exact .bool _
  · exact .bool _
  · exact .bool _
  · exact .fail _ ⟨nofun, nofun⟩

theorem unaryResult_computes (operator : Token) (operand : Value) :
    (unaryResult operator operand).Computes := by
  unfold unaryResult
  split
  · split
    · exact .number _
    · exact .fail _ ⟨nofun, nofun⟩
  · exact .bool _
  · exact .fail _ ⟨nofun, nofun⟩

/-- Operators between any two values. -/
theorem binaryResult_computes (left : Value) (operator : Token) (right : Value) :
    (binaryResult left operator right).Computes := by
  unfold binaryResult
  split
  · exact .bool _
  · exact .bool _
  · split
    · exact .number _
    · exact .string _
    · exact .fail _ ⟨nofun, nofun⟩
  · split
    · exact arithmeticResult_computes operator _ _
    · exact .fail _ ⟨nofun, nofun⟩

end Lox
