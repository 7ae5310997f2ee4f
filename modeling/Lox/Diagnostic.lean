/-!
# Diagnostics

What can be wrong with a program, stage by stage, as causes; the wording of each cause stands in
one place.  A scan and a parse may report many faults, the binding analysis and a run report at
most one.

* `LexicalFault`, `SyntaxFault`, `BindingFault`, `RuntimeFault`, `OutputFault` — the causes.
* `Diagnostic` — a cause with the line it is blamed on.
* `Diagnostic.message`, `Diagnostic.text` — the wording, without and with the line.
-/

namespace Lox

/-! ## Causes -/

/-- Text that is no token. -/
inductive LexicalFault where
  | strayCharacter (c : Char)
  | unterminatedString
  deriving DecidableEq, Repr

/-- What the grammar asks for at some point. -/
inductive Expected where
  | className | classBodyStart
  | functionName | parametersStart | parameterName | parametersEnd | functionBodyStart
  | variableName | variableEnd
  | forClausesStart | loopConditionEnd | forClausesEnd
  | ifConditionStart | whileConditionStart | conditionEnd
  | printEnd | returnEnd | expressionEnd | blockEnd
  | propertyName | argumentsEnd | groupEnd | expression
  deriving DecidableEq, Repr

/-- Tokens that form no program. -/
inductive SyntaxFault where
  | expected (what : Expected)
  | classBodyNotEmpty
  | tooManyParameters
  | tooManyArguments
  | invalidAssignmentTarget
  deriving DecidableEq, Repr

/-- Names and returns that no scope allows. -/
inductive BindingFault where
  | alreadyDeclared
  | readInOwnInitializer
  | returnOutsideFunction
  deriving DecidableEq, Repr

/-- What stops a run. -/
inductive RuntimeFault where
  | undefinedVariable (name : String)
  | undefinedProperty (name : String)
  | propertiesOfNonInstance
  | fieldsOfNonInstance
  | notCallable
  | wrongArgumentCount (expected given : Nat)
  | stackOverflow
  | operandNotNumber
  | operandsNotNumbers
  | operandsNotAddable
  | divisionByZero
  | invalidUnaryOperator (lexeme : String)
  | invalidBinaryOperator (lexeme : String)
  | returnOutsideFunction
  /-- A host function failed with a message of its own. -/
  | hostFailure (message : String)
  deriving DecidableEq, Repr

/-- What keeps printed text from being written. -/
inductive OutputFault where
  | sinkFull
  | cannotFlush
  deriving DecidableEq, Repr

/-- A cause and the line it is blamed on; a failure to write has no line. -/
inductive Diagnostic where
  | lexical (line : Nat) (fault : LexicalFault)
  | syntactic (line : Nat) (fault : SyntaxFault)
  | binding (line : Nat) (fault : BindingFault)
  | runtime (line : Nat) (fault : RuntimeFault)
  | output (fault : OutputFault)
  deriving DecidableEq, Repr

/-! ## Wording -/

/-- The wording of a lexical fault. -/
def LexicalFault.message : LexicalFault → String
  | strayCharacter c => "Unexpected character " ++ c.toString
  | unterminatedString => "Unterminated string."

/-- The wording of what the grammar asks for. -/
def Expected.message : Expected → String
  | className => "class name"
  | classBodyStart => "'\x7b' before class body"
  | functionName => "function name"
  | parametersStart => "'(' after function name"
  | parameterName => "parameter name"
  | parametersEnd => "')' after parameters"
  | functionBodyStart => "'\x7b' before function body"
  | variableName => "variable name"
  | variableEnd => "';' after variable declaration"
  | forClausesStart => "'(' after 'for'"
  | loopConditionEnd => "';' after loop condition"
  | forClausesEnd => "')' after for clauses"
  | ifConditionStart => "'(' after 'if'"
  | whileConditionStart => "'(' after 'while'"
  | conditionEnd => "')' after condition"
  | printEnd => "';' after value"
  | returnEnd => "';' after return value"
  | expressionEnd => "';' after expression"
  | blockEnd => "'\x7d' after block"
  | propertyName => "property name after '.'"
  | argumentsEnd => "')' after arguments"
  | groupEnd => "')' after expression"
  | expression => "expression"

/-- The wording of a syntax fault. -/
def SyntaxFault.message : SyntaxFault → String
  | expected what => "Expected " ++ what.message
  | classBodyNotEmpty => "Class bodies must be empty; methods are not supported"
  | tooManyParameters => "Cannot have more than 255 parameters"
  | tooManyArguments => "Cannot have more than 255 arguments"
  | invalidAssignmentTarget => "Invalid assignment target."

/-- The wording of a binding fault. -/
def BindingFault.message : BindingFault → String
  | alreadyDeclared => "Variable with this name already declared in this scope."
  | readInOwnInitializer => "Cannot read local variable in its own initializer."
  | returnOutsideFunction => "Cannot return from top-level code."

/-- The wording of a runtime fault. -/
def RuntimeFault.message : RuntimeFault → String
  | undefinedVariable name => "Undefined variable '" ++ name ++ "'."
  | undefinedProperty name => "Undefined property '" ++ name ++ "'."
  | propertiesOfNonInstance => "Only instances have properties."
  | fieldsOfNonInstance => "Only instances have fields."
  | notCallable => "Can only call functions and classes."
  | wrongArgumentCount expected given =>
    "Expected " ++ Nat.repr expected ++ " arguments but got " ++ Nat.repr given ++ "."
  | stackOverflow => "Stack overflow."
  | operandNotNumber => "Operand must be a number."
  | operandsNotNumbers => "Operands must be numbers."
  | operandsNotAddable => "Operands must be two numbers or two strings."
  | divisionByZero => "Division by zero."
  | invalidUnaryOperator lexeme => "Invalid unary operator '" ++ lexeme ++ "'."
  | invalidBinaryOperator lexeme => "Invalid binary operator '" ++ lexeme ++ "'."
  | returnOutsideFunction => "Cannot return from top-level code."
  | hostFailure message => message

/-- The wording of an output fault. -/
def OutputFault.message : OutputFault → String
  | sinkFull => "sink is full"
  | cannotFlush => "cannot flush"

namespace Diagnostic

/-- The line a diagnostic is blamed on, zero when there is none. -/
def line : Diagnostic → Nat
  | lexical line _ | syntactic line _ | binding line _ | runtime line _ => line
  | output _ => 0

/-- The wording of a diagnostic, without its line. -/
def message : Diagnostic → String
  | lexical _ fault => fault.message
  | syntactic _ fault => fault.message
  | binding _ fault => fault.message
  | runtime _ fault => fault.message
  | output fault => fault.message

/-- A diagnostic as reported: the line in front, if it has one. -/
def text : Diagnostic → String
  | output fault => fault.message
  | d => Nat.repr d.line ++ ": " ++ d.message

/-- Whether a diagnostic comes from a program that was running, not from one that was refused. -/
def isRuntime : Diagnostic → Bool
  | runtime .. | output _ => true
  | _ => false

end Diagnostic

end Lox
