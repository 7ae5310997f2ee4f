import Lox.Token

/-!
# Syntax trees

Expressions and statements as the grammar builds them.  Names, operators and the tokens that
errors are blamed on are kept as tokens; an access to a variable also has a node identity, under
which the binding analysis records how far away its scope is.  There is no node for a `for` loop:
it is written with blocks and a `while` loop.

* `Literal`, `Expr`, `Stmt` — the nodes.
* `Access`, `Expr.accesses`, `Stmt.accesses` — all accesses to variables in a tree, in the order
  in which the tree is written down.
-/

namespace Lox

/-- The identity of an access to a variable.  Identities are counted up and never given back, and
the count has no end; a counter of 64 bits would begin again after 2^64 accesses, which is more than
any process comes to read. -/
abbrev NodeId := Nat

/-- A constant. -/
inductive Literal where
  | nil
  | bool (b : Bool)
  | number (x : Float)
  | string (s : String)

/-- The constant a token stands for, if it stands for one. -/
def Literal.ofToken? : Token → Option Literal
  | ⟨.keyword .nil, _, _, _⟩ => some nil
  | ⟨.keyword .true, _, _, _⟩ => some (bool true)
  | ⟨.keyword .false, _, _, _⟩ => some (bool false)
  | ⟨.number, _, _, x⟩ => some (number x)
  | ⟨.string, _, _, s⟩ => some (string s)
  | _ => none

inductive Expr where
  | literal (value : Literal)
  /-- An expression in parentheses. -/
  | group (inner : Expr)
  | unary (operator : Token) (operand : Expr)
  | binary (left : Expr) (operator : Token) (right : Expr)
  /-- An operator that evaluates its right side only if it has to. -/
  | logical (left : Expr) (operator : Token) (right : Expr)
  /-- A variable that is read. -/
  | read (id : NodeId) (name : Token)
  | assign (id : NodeId) (name : Token) (value : Expr)
  /-- A call; `paren` is its closing parenthesis. -/
  | call (callee : Expr) (paren : Token) (arguments : List Expr)
  | get (object : Expr) (name : Token)
  | set (object : Expr) (name : Token) (value : Expr)

instance : Inhabited Expr :=
  ⟨.literal .nil⟩

inductive Stmt where
  | expression (e : Expr)
  | print (e : Expr)
  | var (name : Token) (initializer : Option Expr)
  | block (body : List Stmt)
  | branch (condition : Expr) (yes : Stmt) (no : Option Stmt)
  | loop (condition : Expr) (body : Stmt)
  | function (name : Token) (parameters : List Token) (body : List Stmt)
  /-- A return; `keyword` is the token errors are blamed on. -/
  | ret (keyword : Token) (value : Option Expr)
  /-- A class; it has a name and nothing else. -/
  | cls (name : Token)

instance : Inhabited Stmt :=
  ⟨.block []⟩

/-! ## Accesses -/

/-- An access to a variable. -/
structure Access where
  id : NodeId
  name : Token
  /-- Whether the variable is assigned, not read. -/
  assigns : Bool

mutual

/-- The accesses in an expression: an assignment before its value, a callee before the
arguments, an object before the value it is given. -/
def Expr.accesses : Expr → List Access
  | .literal _ => []
  | .group inner => inner.accesses
  | .unary _ operand => operand.accesses
  | .binary left _ right | .logical left _ right => left.accesses ++ right.accesses
  | .read id name => [⟨id, name, false⟩]
  | .assign id name value => ⟨id, name, true⟩ :: value.accesses
  | .call callee _ arguments => callee.accesses ++ Expr.accessesAll arguments
  | .get object _ => object.accesses
  | .set object _ value => object.accesses ++ value.accesses

/-- The accesses in expressions that follow each other. -/
def Expr.accessesAll : List Expr → List Access
  | [] => []
  | e :: es => e.accesses ++ Expr.accessesAll es

end

mutual

/-- The accesses in a statement: a condition before the branches, a function's in its body. -/
def Stmt.accesses : Stmt → List Access
  | .expression e | .print e => e.accesses
  | .var _ initializer => initializer.toList.flatMap Expr.accesses
  | .block body => Stmt.accessesAll body
  | .branch condition yes none => condition.accesses ++ yes.accesses
  | .branch condition yes (some no) => condition.accesses ++ yes.accesses ++ no.accesses
  | .loop condition body => condition.accesses ++ body.accesses
  | .function _ _ body => Stmt.accessesAll body
  | .ret _ value => value.toList.flatMap Expr.accesses
  | .cls _ => []

/-- The accesses in statements that follow each other. -/
def Stmt.accessesAll : List Stmt → List Access
  | [] => []
  | s :: ss => s.accesses ++ Stmt.accessesAll ss

end

end Lox
