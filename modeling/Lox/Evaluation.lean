import Lox.Machine

/-!
# Evaluation

Expressions evaluate to values and statements are executed, in the order in which they are
written: operands from left to right, a callee before its arguments and those before any check of
the call, an object before the value it is given.

* `Expr.eval`, `Stmt.exec` — the evaluator.  They recurse on the tree; what a call does is passed
  in, and so is the number of rounds that each single loop may take.
* `Callable.apply` — what a call does.
* `evaluate`, `execute`, `executeIn`, `interpret` — evaluation with one bound for everything that
  could go on for ever: calls inside calls, and the rounds of a loop.

A step that would need more than its bound is `exhausted`, which is neither a result nor an
error.
-/

namespace Lox

/-- How a statement ends. -/
inductive Flow where
  | normal
  /-- A return was executed; `line` is that of its keyword. -/
  | returned (value : Value) (line : Nat)

/-! ## Operators -/

/-- What an operator before its operand does. -/
def unaryResult (operator : Token) (operand : Value) : Eval Value :=
  match operator.kind with
  | .symbol .minus =>
    match operand with
    | .number x => return .number (-x)
    | _ => Eval.fail operator.line .operandNotNumber
  | .symbol .bang => return .bool !operand.isTruthy
  | _ => Eval.fail operator.line (.invalidUnaryOperator operator.lexeme)

/-- What an operator between two numbers does. -/
def arithmeticResult (operator : Token) (x y : Float) : Eval Value :=
  match operator.kind with
  | .symbol .minus => return .number (x - y)
  | .symbol .star => return .number (x * y)
  | .symbol .slash =>
    if y == 0 then Eval.fail operator.line .divisionByZero else return .number (x / y)
  | .symbol .greater => return .bool (decide (y < x))
  | .symbol .greaterEqual => return .bool (decide (y ≤ x))
  | .symbol .less => return .bool (decide (x < y))
  | .symbol .lessEqual => return .bool (decide (x ≤ y))
  | _ => Eval.fail operator.line (.invalidBinaryOperator operator.lexeme)

/-- What an operator between two values does: equality takes any, a sum two numbers or two
strings, and all others two numbers. -/
def binaryResult (left : Value) (operator : Token) (right : Value) : Eval Value :=
  match operator.kind with
  | .symbol .equalEqual => return .bool (left.equals right)
  | .symbol .bangEqual => return .bool !(left.equals right)
  | .symbol .plus =>
    match left, right with
    | .number x, .number y => return .number (x + y)
    | .string s, .string t => return .string (s ++ t)
    | _, _ => Eval.fail operator.line .operandsNotAddable
  | _ =>
    match left, right with
    | .number x, .number y => arithmeticResult operator x y
    | _, _ => Eval.fail operator.line .operandsNotNumbers

/-- Whether the left side alone decides: a true one for `or`, an untrue one for `and`. -/
def isDecided (operator : Token) (left : Value) : Bool :=
  match operator.kind with
  | .keyword .or => left.isTruthy
  | _ => !left.isTruthy

/-! ## The evaluator -/

/-- What a call does, given the arguments and the line it is blamed on. -/
abbrev Apply := Callable → List Value → Nat → Eval Value

/-- A call of a value: it has to be callable, and the arguments have to be as many as it takes. -/
def callValue (apply : Apply) (callee : Value) (arguments : List Value) (line : Nat) :
    Eval Value :=
  match callee with
  | .callable _ c =>
    if arguments.length = c.arity then Eval.entering line (apply c arguments line)
    else Eval.fail line (.wrongArgumentCount c.arity arguments.length)
  | _ => Eval.fail line .notCallable

mutual

/-- The value of an expression. -/
def Expr.eval (apply : Apply) : Expr → Eval Value
  | .literal value => return .ofLiteral value
  | .group inner => inner.eval apply
  | .unary operator operand => do unaryResult operator (← operand.eval apply)
  | .binary left operator right => do
    let x ← left.eval apply
    binaryResult x operator (← right.eval apply)
  | .logical left operator right => do
    let x ← left.eval apply
    if isDecided operator x then return x else right.eval apply
  | .read id name => Eval.readVariable id name
  | .assign id name value => do
    let x ← value.eval apply
    Eval.writeVariable id name x
    return x
  | .call callee paren arguments => do
    let f ← callee.eval apply
    callValue apply f (← Expr.evalAll apply arguments) paren.line
  | .get object name => do
    match ← object.eval apply with
    | .object identity _ => Eval.readField identity name
    | _ => Eval.fail name.line .propertiesOfNonInstance
  | .set object name value => do
    match ← object.eval apply with
    | .object identity _ =>
      let x ← value.eval apply
      Eval.writeField identity name x
      return x
    | _ => Eval.fail name.line .fieldsOfNonInstance

/-- The values of expressions, evaluated one after another. -/
def Expr.evalAll (apply : Apply) : List Expr → Eval (List Value)
  | [] => return []
  | e :: es => do
    let x ← e.eval apply
    return x :: (← Expr.evalAll apply es)

end

/-- The value of an expression that may be missing: `nil` if it is. -/
def Expr.evalOption (apply : Apply) : Option Expr → Eval Value
  | some e => e.eval apply
  | none => return .nil

/-- A loop of at most `rounds` rounds. -/
def repeatWhile (condition : Eval Value) (body : Eval Flow) : (rounds : Nat) → Eval Flow
  | 0 => Eval.exhausted
  | rounds + 1 => do
    if (← condition).isTruthy then
      match ← body with
      | .normal => repeatWhile condition body rounds
      | .returned value line => return .returned value line
    else return .normal

mutual

/-- Executes a statement. -/
def Stmt.exec (apply : Apply) (rounds : Nat) : Stmt → Eval Flow
  | .expression e => do
    let _ ← e.eval apply
    return .normal
  | .print e => do
    let x ← e.eval apply
    Eval.printLine x.display
    return .normal
  | .var name initializer => do
    let x ← Expr.evalOption apply initializer
    Eval.define name.lexeme x
    return .normal
  | .block body => do
    let env := (← get).env
    Eval.inScope env (Stmt.execAll apply rounds body)
  | .branch condition yes none => do
    if (← condition.eval apply).isTruthy then yes.exec apply rounds else return .normal
  | .branch condition yes (some no) => do
    if (← condition.eval apply).isTruthy then yes.exec apply rounds else no.exec apply rounds
  | .loop condition body => repeatWhile (condition.eval apply) (body.exec apply rounds) rounds
  | .function name parameters body => do
    Eval.defineCallable name.lexeme (.function name parameters body (← get).env)
    return .normal
  | .ret keyword value => do
    return .returned (← Expr.evalOption apply value) keyword.line
  | .cls name => do
    Eval.defineCallable name.lexeme (.cls name.lexeme)
    return .normal

/-- Executes statements one after another, up to the first return. -/
def Stmt.execAll (apply : Apply) (rounds : Nat) : List Stmt → Eval Flow
  | [] => return .normal
  | s :: ss => do
    match ← s.exec apply rounds with
    | .normal => Stmt.execAll apply rounds ss
    | .returned value line => return .returned value line

end

/-! ## Calls -/

/-- Binds each parameter to its argument in the current scope. -/
def bindParameters (parameters : List Token) (arguments : List Value) : Eval Unit :=
  (parameters.zip arguments).forM fun (name, value) => Eval.define name.lexeme value

/-- The value of a call whose body ended in the given way. -/
def Flow.result : Flow → Value
  | normal => .nil
  | returned value _ => value

/-- What a host function does. -/
def HostFunction.apply (f : HostFunction) (arguments : List Value) (line : Nat) : Eval Value :=
  match f with
  | clock => Eval.readClock
  | lastArgument _ => return arguments.getLast?.getD .nil
  | failing _ message => Eval.fail line (.hostFailure message)

/-- **What a call does.**  A function runs its body in a new scope inside the environment of its
declaration, a class makes an object. -/
def Callable.apply : (bound : Nat) → Apply
  | 0, _, _, _ => Eval.exhausted
  | _ + 1, .host f, arguments, line => f.apply arguments line
  | _ + 1, .cls name, _, _ => Eval.newObject name
  | bound + 1, .function _ parameters body closure, arguments, _ =>
    Eval.inScope closure do
      bindParameters parameters arguments
      return (← Stmt.execAll (Callable.apply bound) bound body).result

/-! ## Whole programs -/

/-- The value of an expression, within a bound. -/
def evaluate (bound : Nat) (e : Expr) : Eval Value :=
  e.eval (Callable.apply bound)

/-- Executes a statement, within a bound. -/
def execute (bound : Nat) (s : Stmt) : Eval Flow :=
  s.exec (Callable.apply bound) bound

/-- Executes statements in another environment, within a bound. -/
def executeIn (bound : Nat) (env : Env) (body : List Stmt) : Eval Flow :=
  Eval.within env (Stmt.execAll (Callable.apply bound) bound body)

/-- Executes statements one after another; a return outside every function is an error. -/
def executeProgram (bound : Nat) : List Stmt → Eval Unit
  | [] => return ()
  | s :: ss => do
    match ← execute bound s with
    | .normal => executeProgram bound ss
    | .returned _ line => Eval.fail line .returnOutsideFunction

/-- **Runs a program** whose names have been resolved, and flushes what it printed. -/
def interpret (bound : Nat) (program : List Stmt) : Eval Unit := do
  executeProgram bound program
  Eval.flush

end Lox
