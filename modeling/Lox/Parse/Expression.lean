import Lox.Parse.Reader

/-!
# The grammar of expressions

```text
expression → ( suffixed "." )? IDENTIFIER "=" expression | or
or         → and ( "or" and )*
and        → equality ( "and" equality )*
equality   → comparison ( ( "!=" | "==" ) comparison )*
comparison → term ( ( ">" | ">=" | "<" | "<=" ) term )*
term       → factor ( ( "-" | "+" ) factor )*
factor     → unary ( ( "/" | "*" ) unary )*
unary      → ( "!" | "-" ) unary | suffixed
suffixed   → primary ( "(" arguments? ")" | "." IDENTIFIER )*
arguments  → expression ( "," expression )*
primary    → NUMBER | STRING | "true" | "false" | "nil" | IDENTIFIER | "(" expression ")"
```

Operators of one level associate to the left, assignment to the right; whether the left side of an
assignment can be assigned is looked at only once its right side has been read.

Each rule takes a bound.  Repetitions and nested expressions take at least one token for each step of
the bound, so a bound above the number of tokens ahead is never used up.
-/

namespace Lox.Parse

variable {σ : Type} [Reader σ]

/-- Operators that associate to the left: what follows a left operand. -/
def chain (kinds : List Kind) (node : Expr → Token → Expr → Expr) (operand : Parser σ Expr) :
    (bound : Nat) → Expr → Parser σ Expr
  | 0, left => return left
  | bound + 1, left => do
    match ← acceptAny kinds with
    | some operator => chain kinds node operand bound (node left operator (← operand))
    | none => return left

/-- Operands with operators of one level between them. -/
def level (kinds : List Kind) (node : Expr → Token → Expr → Expr) (operand : Parser σ Expr)
    (bound : Nat) : Parser σ Expr := do
  chain kinds node operand bound (← operand)

/-- A constant, a variable, or an expression in parentheses. -/
def primary (expression : Parser σ Expr) : Parser σ Expr := do
  if let some value ← acceptLiteral then return .literal value
  if let some name ← accept .identifier then return .read (← fresh) name
  if let some _ ← accept (.symbol .leftParen) then
    let inner ← expression
    let _ ← expect (.symbol .rightParen) .groupEnd
    return .group inner
  fail (.expected .expression)

/-- What follows an expression that is called or whose properties are read. -/
def suffixes (expression : Parser σ Expr) : (bound : Nat) → Expr → Parser σ Expr
  | 0, e => return e
  | bound + 1, e => do
    if let some _ ← accept (.symbol .leftParen) then
      let arguments ← parenthesized .tooManyArguments expression
      let paren ← expect (.symbol .rightParen) .argumentsEnd
      suffixes expression bound (.call e paren arguments)
    else if let some _ ← accept (.symbol .dot) then
      let name ← expect .identifier .propertyName
      suffixes expression bound (.get e name)
    else return e

/-- Calls and properties. -/
def suffixed (expression : Parser σ Expr) (bound : Nat) : Parser σ Expr := do
  suffixes expression bound (← primary expression)

/-- Operators before their operand. -/
def unary (expression : Parser σ Expr) : (bound : Nat) → Parser σ Expr
  | 0 => suffixed expression 0
  | bound + 1 => do
    match ← acceptAny [.symbol .bang, .symbol .minus] with
    | some operator => return .unary operator (← unary expression bound)
    | none => suffixed expression (bound + 1)

/-- Quotients and products. -/
def factor (expression : Parser σ Expr) (bound : Nat) : Parser σ Expr :=
  level [.symbol .slash, .symbol .star] .binary (unary expression bound) bound

/-- Differences and sums. -/
def term (expression : Parser σ Expr) (bound : Nat) : Parser σ Expr :=
  level [.symbol .minus, .symbol .plus] .binary (factor expression bound) bound

/-- Comparisons of size. -/
def comparison (expression : Parser σ Expr) (bound : Nat) : Parser σ Expr :=
  level [.symbol .greater, .symbol .greaterEqual, .symbol .less, .symbol .lessEqual] .binary
    (term expression bound) bound

/-- Comparisons of identity. -/
def equality (expression : Parser σ Expr) (bound : Nat) : Parser σ Expr :=
  level [.symbol .bangEqual, .symbol .equalEqual] .binary (comparison expression bound) bound

/-- Conjunctions. -/
def conjunction (expression : Parser σ Expr) (bound : Nat) : Parser σ Expr :=
  level [.keyword .and] .logical (equality expression bound) bound

/-- Disjunctions. -/
def disjunction (expression : Parser σ Expr) (bound : Nat) : Parser σ Expr :=
  level [.keyword .or] .logical (conjunction expression bound) bound

/-- What assigning `value` to the expression `target` is, if it can be assigned; `line` is that of
the equals sign. -/
def assignTo (target : Expr) (line : Nat) (value : Expr) : Parser σ Expr :=
  match target with
  | .read _ name => return .assign (← fresh) name value
  | .get object name => return .set object name value
  | _ => throw (line, .invalidAssignmentTarget)

/-- An assignment, or what can stand on its left side. -/
def assignment (expression : Parser σ Expr) (bound : Nat) : Parser σ Expr := do
  let target ← disjunction expression bound
  match ← accept (.symbol .equal) with
  | some equal => assignTo target equal.line (← expression)
  | none => return target

/-- An expression. -/
def expression : (bound : Nat) → Parser σ Expr
  | 0 => fail (.expected .expression)
  | bound + 1 => assignment (expression bound) (bound + 1)

end Lox.Parse
