import Mathlib.Logic.Basic
import Lox.Proofs.Resolution.Scoping

/-!
# Renaming a local

One declaration of a local gets another name, and with it the accesses that a table of distances
binds to it: those by the old name from which the table leads to the scope of the declaration.
Nothing else in the tree is changed.

* `Stmt.rename` — the other name inside the scope of the declaration, at some distance from it.
* `Stmt.Renames`, `Stmt.RenamesAll` — one declaration of a program is renamed.
* `Stmt.Unused` — a name that no variable of a program has.
-/

namespace Lox

open Resolution

/-! ## Trees

A renaming knows the distance from the current scope to that of the declaration, and counts it up at
each scope it enters.  A function counts as one scope, a block as another. -/

section
variable (table : Distances) (x y : String)

/-- The other name for the one. -/
def Token.rename (t : Token) : Token :=
  if t.lexeme = x then { t with lexeme := y } else t

/-- The name of a declaration in a scope: the other one if it is the scope at distance 0. -/
def Token.renameDeclared (depth : Option Nat) (name : Token) : Token :=
  if depth = some 0 then name.rename x y else name

/-- The name of an access: the other one if the table leads to the scope. -/
def Token.renameAccess (depth : Option Nat) (id : NodeId) (name : Token) : Token :=
  if depth.isSome ∧ table[id]? = depth then name.rename x y else name

mutual

/-- An expression with the other name; `depth` is the distance of the scope that the declaration
stands in, if the expression is inside of that scope. -/
def Expr.rename (depth : Option Nat) : Expr → Expr
  | .literal value => .literal value
  | .group inner => .group (inner.rename depth)
  | .unary operator operand => .unary operator (operand.rename depth)
  | .binary left operator right => .binary (left.rename depth) operator (right.rename depth)
  | .logical left operator right => .logical (left.rename depth) operator (right.rename depth)
  | .read id name => .read id (name.renameAccess table x y depth id)
  | .assign id name value => .assign id (name.renameAccess table x y depth id) (value.rename depth)
  | .call callee paren arguments => .call (callee.rename depth) paren (Expr.renameAll depth arguments)
  | .get object name => .get (object.rename depth) name
  | .set object name value => .set (object.rename depth) name (value.rename depth)

/-- The same for expressions that follow each other. -/
def Expr.renameAll (depth : Option Nat) : List Expr → List Expr
  | [] => []
  | e :: es => e.rename depth :: Expr.renameAll depth es

end

mutual

/-- A statement with the other name. -/
def Stmt.rename (depth : Option Nat) : Stmt → Stmt
  | .expression e => .expression (e.rename table x y depth)
  | .print e => .print (e.rename table x y depth)
  | .var name initializer =>
    .var (name.renameDeclared x y depth) (initializer.map (Expr.rename table x y depth))
  | .block body => .block (Stmt.renameAll (depth.map (· + 1)) body)
  | .branch condition yes none => .branch (condition.rename table x y depth) (yes.rename depth) none
  | .branch condition yes (some no) =>
    .branch (condition.rename table x y depth) (yes.rename depth) (some (no.rename depth))
  | .loop condition body => .loop (condition.rename table x y depth) (body.rename depth)
  | .function name parameters body =>
    .function name parameters (Stmt.renameAll (depth.map (· + 1)) body)
  | .ret keyword value => .ret keyword (value.map (Expr.rename table x y depth))
  | .cls name => .cls name

/-- The same for statements that follow each other. -/
def Stmt.renameAll (depth : Option Nat) : List Stmt → List Stmt
  | [] => []
  | s :: ss => s.rename depth :: Stmt.renameAll depth ss

end

mutual

/-- Outside of the scope of the declaration nothing is renamed. -/
theorem Expr.rename_none : ∀ e : Expr, e.rename table x y none = e
  | .literal _ => rfl
  | .group inner => congrArg Expr.group (Expr.rename_none inner)
  | .unary operator operand => congrArg (Expr.unary operator) (Expr.rename_none operand)
  | .binary left operator right | .logical left operator right => by
      rw [Expr.rename, Expr.rename_none left, Expr.rename_none right]
  | .read id name => congrArg (Expr.read id) (if_neg (by simp))
  | .assign id name value => by
      rw [Expr.rename, Expr.rename_none value]
      exact congrArg (Expr.assign id · value) (if_neg (by simp))
  | .call callee paren arguments => by
      rw [Expr.rename, Expr.rename_none callee, Expr.renameAll_none arguments]
  | .get object name => congrArg (Expr.get · name) (Expr.rename_none object)
  | .set object name value => by rw [Expr.rename, Expr.rename_none object, Expr.rename_none value]

theorem Expr.renameAll_none : ∀ es : List Expr, Expr.renameAll table x y none es = es
  | [] => rfl
  | e :: es => by rw [Expr.renameAll, Expr.rename_none e, Expr.renameAll_none es]

end

theorem Expr.map_rename_none : ∀ e : Option Expr, e.map (Expr.rename table x y none) = e
  | none => rfl
  | some e => congrArg some (Expr.rename_none table x y e)

mutual

/-- Outside the scope of the declaration nothing is renamed. -/
theorem Stmt.rename_none : ∀ s : Stmt, s.rename table x y none = s
  | .expression e => congrArg Stmt.expression (Expr.rename_none table x y e)
  | .print e => congrArg Stmt.print (Expr.rename_none table x y e)
  | .var name initializer => by
      rw [Stmt.rename, Expr.map_rename_none]
      exact congrArg (Stmt.var · initializer) (if_neg (by simp))
  | .block body => congrArg Stmt.block (Stmt.renameAll_none body)
  | .branch condition yes none => by
      rw [Stmt.rename, Expr.rename_none, Stmt.rename_none yes]
  | .branch condition yes (some no) => by
      rw [Stmt.rename, Expr.rename_none, Stmt.rename_none yes, Stmt.rename_none no]
  | .loop condition body => by rw [Stmt.rename, Expr.rename_none, Stmt.rename_none body]
  | .function name parameters body =>
      congrArg (Stmt.function name parameters) (Stmt.renameAll_none body)
  | .ret keyword value => congrArg (Stmt.ret keyword) (Expr.map_rename_none table x y value)
  | .cls _ => rfl

theorem Stmt.renameAll_none : ∀ ss : List Stmt, Stmt.renameAll table x y none ss = ss
  | [] => rfl
  | s :: ss => by rw [Stmt.renameAll, Stmt.rename_none s, Stmt.renameAll_none ss]

end

/-- Some statements declare a variable, not inside of one of them. -/
def Stmt.DeclareVariable (ss : List Stmt) : Prop :=
  ∃ name initializer, .var name initializer ∈ ss ∧ name.lexeme = x

mutual

/-- **One local of a statement is renamed**: a variable of a block or of the body of a function, or
a parameter. -/
inductive Stmt.Renames : Stmt → Stmt → Prop
  | block {body} (h : Stmt.DeclareVariable x body) :
      Renames (.block body) (.block (Stmt.renameAll table x y (some 0) body))
  | function {name parameters body}
      (h : (∃ p ∈ parameters, p.lexeme = x) ∨ Stmt.DeclareVariable x body) :
      Renames (.function name parameters body)
        (.function name (parameters.map (Token.rename x y))
          (Stmt.renameAll table x y (some 0) body))
  | inBlock {body body'} (h : RenamesAll body body') : Renames (.block body) (.block body')
  | inYes {condition yes yes' no} (h : Renames yes yes') :
      Renames (.branch condition yes no) (.branch condition yes' no)
  | inNo {condition yes no no'} (h : Renames no no') :
      Renames (.branch condition yes (some no)) (.branch condition yes (some no'))
  | inLoop {condition body body'} (h : Renames body body') :
      Renames (.loop condition body) (.loop condition body')
  | inFunction {name parameters body body'} (h : RenamesAll body body') :
      Renames (.function name parameters body) (.function name parameters body')

/-- One local of some statements is renamed. -/
inductive Stmt.RenamesAll : List Stmt → List Stmt → Prop
  | here {s s' ss} (h : Renames s s') : RenamesAll (s :: ss) (s' :: ss)
  | there {s ss ss'} (h : RenamesAll ss ss') : RenamesAll (s :: ss) (s :: ss')

end

end

/-! ## Names that are not used

The other name has to be one that no variable of the program has, for otherwise it could be found
where the old one was looked for. -/

mutual

/-- The names that are declared in a statement, inside of it or not. -/
def Stmt.declarations : Stmt → List Token
  | .var name _ | .cls name => [name]
  | .block body => Stmt.declarationsAll body
  | .branch _ yes none => yes.declarations
  | .branch _ yes (some no) => yes.declarations ++ no.declarations
  | .loop _ body => body.declarations
  | .function name parameters body => name :: (parameters ++ Stmt.declarationsAll body)
  | _ => []

/-- The names that are declared in some statements. -/
def Stmt.declarationsAll : List Stmt → List Token
  | [] => []
  | s :: ss => s.declarations ++ Stmt.declarationsAll ss

end

/-- A name that no variable of a program has. -/
structure Stmt.Unused (y : String) (program : List Stmt) : Prop where
  accesses : ∀ a ∈ Stmt.accessesAll program, a.name.lexeme ≠ y
  declarations : ∀ t ∈ Stmt.declarationsAll program, t.lexeme ≠ y

end Lox
