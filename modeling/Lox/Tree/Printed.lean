import Lox.Tree

/-!
# Trees in prefix form

A tree is written as nested lists in parentheses, the operator or the name of the node first:
`-1 * (2 + x);` is `(; (* (- 1.0) (group (+ 2.0 x))))`.

* `Literal.text`, `Expr.text`, `Stmt.text` — the three printers.
-/

namespace Lox

/-- The number of a literal: whole numbers with all their digits and the place `.0`, others as the
shortest decimal. -/
def Literal.numberText (x : Float) : String :=
  if Number.isWhole x then Number.fixed 1 x else Number.shortest x

/-- A constant; a string is written without quotes. -/
def Literal.text : Literal → String
  | nil => "nil"
  | bool true => "true"
  | bool false => "false"
  | number x => numberText x
  | string s => s

/-- A list in parentheses: a head, then each item after a space. -/
def listText (head : String) (items : List String) : String :=
  "(" ++ head ++ String.join (items.map (" " ++ ·)) ++ ")"

mutual

/-- An expression in prefix form. -/
def Expr.text : Expr → String
  | .literal value => value.text
  | .group inner => listText "group" [inner.text]
  | .unary operator operand => listText operator.lexeme [operand.text]
  | .binary left operator right | .logical left operator right =>
    listText operator.lexeme [left.text, right.text]
  | .read _ name => name.lexeme
  | .assign _ name value => listText "=" [name.lexeme, value.text]
  | .call callee _ arguments => listText "call" (callee.text :: Expr.texts arguments)
  | .get object name => listText "." [object.text, name.lexeme]
  | .set object name value => listText "=" [listText "." [object.text, name.lexeme], value.text]

/-- Expressions in prefix form, one by one. -/
def Expr.texts : List Expr → List String
  | [] => []
  | e :: es => e.text :: Expr.texts es

end

/-- The head of a function: its name and its parameters between parentheses. -/
def functionHead (name : Token) (parameters : List Token) : String :=
  "fun " ++ name.lexeme ++ "(" ++ String.intercalate " " (parameters.map Token.lexeme) ++ ")"

mutual

/-- A statement in prefix form. -/
def Stmt.text : Stmt → String
  | .expression e => listText ";" [e.text]
  | .print e => listText "print" [e.text]
  | .var name initializer => listText "var" (name.lexeme :: initializer.toList.map Expr.text)
  | .block body => listText "block" (Stmt.texts body)
  | .branch condition yes none => listText "if" [condition.text, yes.text]
  | .branch condition yes (some no) => listText "if" [condition.text, yes.text, no.text]
  | .loop condition body => listText "while" [condition.text, body.text]
  | .function name parameters body => listText (functionHead name parameters) (Stmt.texts body)
  | .ret _ value => listText "return" (value.toList.map Expr.text)
  | .cls name => listText "class" [name.lexeme]

/-- Statements in prefix form, one by one. -/
def Stmt.texts : List Stmt → List String
  | [] => []
  | s :: ss => s.text :: Stmt.texts ss

end

end Lox
