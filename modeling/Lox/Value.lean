import Lox.Store
import Lox.Tree

/-!
# Values

* `Value` — what an expression evaluates to.
* `Callable` — what can be called: host functions, functions with the environment they were
  declared in, and classes.
* `Value.isTruthy`, `Value.equals`, `Value.display` — truth, equality and printed text.

Functions, classes and objects are compared by identity.  The fields of an object can change, so
they are kept outside the value, under its identity.
-/

namespace Lox

/-- A function that is not written in the language. -/
inductive HostFunction where
  /-- The seconds that have passed. -/
  | clock
  /-- The last of `arity` arguments, `nil` if there is none. -/
  | lastArgument (arity : Nat)
  /-- A function of `arity` arguments that fails with a message. -/
  | failing (arity : Nat) (message : String)
  deriving DecidableEq, Repr

/-- What can be called. -/
inductive Callable where
  | host (f : HostFunction)
  /-- A declared function and the environment of its declaration. -/
  | function (name : Token) (parameters : List Token) (body : List Stmt) (closure : Env)
  /-- A class; calling it makes an object. -/
  | cls (name : String)

/-- What an expression evaluates to. -/
inductive Value where
  | nil
  | bool (b : Bool)
  | number (x : Float)
  | string (s : String)
  | callable (identity : Nat) (c : Callable)
  /-- An object, with the name of its class. -/
  | object (identity : Nat) (className : String)

instance : Inhabited Value :=
  ⟨.nil⟩

/-- The number of arguments that a call has to give. -/
def Callable.arity : Callable → Nat
  | host .clock => 0
  | host (.lastArgument arity) | host (.failing arity _) => arity
  | function _ parameters _ _ => parameters.length
  | cls _ => 0

/-- The printed text of what can be called. -/
def Callable.display : Callable → String
  | host _ => "<native fn>"
  | function name _ _ _ => "<fn " ++ name.lexeme ++ ">"
  | cls name => name

namespace Value

/-- The value of a constant. -/
def ofLiteral : Literal → Value
  | .nil => nil
  | .bool b => bool b
  | .number x => number x
  | .string s => string s

/-- Only `nil` and `false` are not true. -/
def isTruthy : Value → Bool
  | nil | bool false => false
  | _ => true

/-- Whether two values are of one kind and equal: numbers as the arithmetic of doubles has it,
functions, classes and objects by identity. -/
def equals : Value → Value → Bool
  | nil, nil => true
  | bool a, bool b => a == b
  | number x, number y => x == y
  | string s, string t => s == t
  | callable i _, callable j _ => i == j
  | object i _, object j _ => i == j
  | _, _ => false

/-- The printed text of a value: numbers with two places, strings as they are. -/
def display : Value → String
  | nil => "nil"
  | bool true => "true"
  | bool false => "false"
  | number x => Number.fixed 2 x
  | string s => s
  | callable _ c => c.display
  | object _ className => className ++ " instance"

end Value

end Lox
