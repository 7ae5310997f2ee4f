import Lox.Parse.Expression

/-!
# The grammar of statements

```text
declaration → "class" IDENTIFIER "{" "}"
            | "fun" IDENTIFIER "(" parameters? ")" block
            | "var" variable
            | statement
variable    → IDENTIFIER ( "=" expression )? ";"
parameters  → IDENTIFIER ( "," IDENTIFIER )*
statement   → expression ";"
            | "print" expression ";"
            | "return" expression? ";"
            | "if" "(" expression ")" statement ( "else" statement )?
            | "while" "(" expression ")" statement
            | "for" "(" ( "var" variable | expression ";" | ";" ) expression? ";" expression? ")"
              statement
            | block
block       → "{" declaration* "}"
```

An `else` belongs to the nearest `if`.  A `for` loop is written as a `while` loop: the increment is
put after the body in a block, and the initializer before the loop in another.  A fault ends the
declaration it is found in and no other, so the declarations of a block, and of a program, go on
after it.

What a declaration and a statement begin with is only looked at, without a look for the end.  The
bounds are as for expressions: above the number of tokens ahead.
-/

namespace Lox.Parse

variable {σ : Type} [Reader σ]

/-! ## Simple statements -/

/-- An expression up to its semicolon. -/
def expressionStatement (bound : Nat) : Parser σ Stmt := do
  let e ← expression bound
  let _ ← expect (.symbol .semicolon) .expressionEnd
  return .expression e

/-- What follows `print`. -/
def printed (bound : Nat) : Parser σ Stmt := do
  let e ← expression bound
  let _ ← expect (.symbol .semicolon) .printEnd
  return .print e

/-- What follows the keyword of a return. -/
def returned (bound : Nat) (keyword : Token) : Parser σ Stmt := do
  let value ← if ← sees (.symbol .semicolon) then pure none else some <$> expression bound
  let _ ← expect (.symbol .semicolon) .returnEnd
  return .ret keyword value

/-- What follows `var`. -/
def variableDeclared (bound : Nat) : Parser σ Stmt := do
  let name ← expect .identifier .variableName
  let initializer ← match ← accept (.symbol .equal) with
    | some _ => some <$> expression bound
    | none => pure none
  let _ ← expect (.symbol .semicolon) .variableEnd
  return .var name initializer

/-- What follows `class`. -/
def classDeclared : Parser σ Stmt := do
  let name ← expect .identifier .className
  let _ ← expect (.symbol .leftBrace) .classBodyStart
  match ← accept (.symbol .rightBrace) with
  | some _ => return .cls name
  | none => fail .classBodyNotEmpty

/-! ## Statements that hold others -/

/-- Declarations up to the end, or up to a closing brace where one ends them. -/
def declarations (declaration : Parser σ (Option Stmt)) (braced : Bool) :
    (bound : Nat) → Parser σ (List Stmt)
  | 0 => return []
  | bound + 1 => do
    if (← ended) || (braced && (← sees (.symbol .rightBrace))) then return []
    else
      let first ← declaration
      let others ← declarations declaration braced bound
      return first.toList ++ others

/-- What follows the opening brace of a block. -/
def block (declaration : Parser σ (Option Stmt)) (bound : Nat) : Parser σ (List Stmt) := do
  let body ← declarations declaration true bound
  let _ ← expect (.symbol .rightBrace) .blockEnd
  return body

/-- What follows `fun`. -/
def functionDeclared (declaration : Parser σ (Option Stmt)) (bound : Nat) : Parser σ Stmt := do
  let name ← expect .identifier .functionName
  let _ ← expect (.symbol .leftParen) .parametersStart
  let parameters ← parenthesized .tooManyParameters (expect .identifier .parameterName)
  let _ ← expect (.symbol .rightParen) .parametersEnd
  let _ ← expect (.symbol .leftBrace) .functionBodyStart
  return .function name parameters (← block declaration bound)

/-- What follows `if`. -/
def branching (statement : Parser σ Stmt) (bound : Nat) : Parser σ Stmt := do
  let _ ← expect (.symbol .leftParen) .ifConditionStart
  let condition ← expression bound
  let _ ← expect (.symbol .rightParen) .conditionEnd
  let yes ← statement
  match ← accept (.keyword .else_) with
  | some _ => return .branch condition yes (some (← statement))
  | none => return .branch condition yes none

/-- What follows `while`. -/
def looping (statement : Parser σ Stmt) (bound : Nat) : Parser σ Stmt := do
  let _ ← expect (.symbol .leftParen) .whileConditionStart
  let condition ← expression bound
  let _ ← expect (.symbol .rightParen) .conditionEnd
  return .loop condition (← statement)

/-- The first clause of a `for` loop, its semicolon included. -/
def forInitializer (bound : Nat) : Parser σ (Option Stmt) := do
  if let some _ ← accept (.symbol .semicolon) then return none
  else if let some _ ← accept (.keyword .var) then some <$> variableDeclared bound
  else some <$> expressionStatement bound

/-- An expression, unless a token of the given kind is ahead. -/
def optionalUpTo (kind : Kind) (bound : Nat) : Parser σ (Option Expr) := do
  if ← sees kind then return none else some <$> expression bound

/-- A `for` loop as a `while` loop; a missing condition is `true`. -/
def forLoop (initializer : Option Stmt) (condition increment : Option Expr) (body : Stmt) : Stmt :=
  let body := match increment with
    | some e => .block [body, .expression e]
    | none => body
  let loop := .loop (condition.getD (.literal (.bool true))) body
  match initializer with
  | some s => .block [s, loop]
  | none => loop

/-- What follows `for`. -/
def counting (statement : Parser σ Stmt) (bound : Nat) : Parser σ Stmt := do
  let _ ← expect (.symbol .leftParen) .forClausesStart
  let initializer ← forInitializer bound
  let condition ← optionalUpTo (.symbol .semicolon) bound
  let _ ← expect (.symbol .semicolon) .loopConditionEnd
  let increment ← optionalUpTo (.symbol .rightParen) bound
  let _ ← expect (.symbol .rightParen) .forClausesEnd
  return forLoop initializer condition increment (← statement)

/-- A statement, given the rules for what it holds. -/
def statementOf (statement : Parser σ Stmt) (declaration : Parser σ (Option Stmt)) (bound : Nat) :
    Parser σ Stmt := do
  if let some _ ← take (.keyword .for_) then counting statement bound
  else if let some _ ← take (.keyword .if_) then branching statement bound
  else if let some _ ← take (.keyword .while_) then looping statement bound
  else if let some keyword ← take (.keyword .return_) then returned bound keyword
  else if let some _ ← take (.keyword .print) then printed bound
  else if let some _ ← take (.symbol .leftBrace) then .block <$> block declaration bound
  else expressionStatement bound

/-- A declaration whose fault is not recorded yet, given the rules for what it holds. -/
def declared (statement : Parser σ Stmt) (declaration : Parser σ (Option Stmt)) (bound : Nat) :
    Parser σ Stmt := do
  if let some _ ← take (.keyword .class_) then classDeclared
  else if let some _ ← take (.keyword .fun_) then functionDeclared declaration bound
  else if let some _ ← take (.keyword .var) then variableDeclared bound
  else statementOf statement declaration bound

/-- A declaration, given the rules for what it holds. -/
def declarationOf (statement : Parser σ Stmt) (declaration : Parser σ (Option Stmt)) (bound : Nat) :
    Parser σ (Option Stmt) :=
  recovering (declared statement declaration bound)

mutual

/-- A statement. -/
def statement : (bound : Nat) → Parser σ Stmt
  | 0 => fail (.expected .expression)
  | bound + 1 => statementOf (statement bound) (declaration bound) (bound + 1)

/-- A declaration; none if there was a fault in it. -/
def declaration : (bound : Nat) → Parser σ (Option Stmt)
  | 0 => return none
  | bound + 1 => declarationOf (statement bound) (declaration bound) (bound + 1)

end

end Lox.Parse
