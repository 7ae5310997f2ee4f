import Std.Data.TreeMap
import Lox.Diagnostic
import Lox.Tree

/-!
# Name resolution

Before a program runs, every access to a variable is resolved to the scope that declares it, as a
distance: the number of scopes between the access and that scope.  Blocks and functions open
scopes; a function's parameters and its body share one.  An access that no open scope declares is
global and gets no distance.  The walk also refuses three things: declaring a name twice in one
scope, reading a variable in its own initializer, and a return outside every function.

* `Scope` — the names declared so far in an open scope.
* `Expr.resolve`, `Stmt.resolve` — the walk over a tree.
* `resolve` — the distances of the accesses in a program, in the order of the walk.
* `Distances` — a table of distances, to which every program that is run adds its own.

The walk goes through a tree in the order in which it is evaluated, but for one case: the value
that is given to a property comes before the object.
-/

namespace Lox

namespace Resolution

/-- A binding fault and the line it is blamed on. -/
abbrev Fault := Nat × BindingFault

/-- An access and its distance. -/
abbrev Entry := NodeId × Nat

/-- An open scope. -/
structure Scope where
  /-- The names declared so far, and whether each may be read yet: a variable may not be read
  before its initializer has been resolved. -/
  names : List (String × Bool) := []
  /-- Whether the scope lies inside a function. -/
  inFunction : Bool := false
  deriving DecidableEq, Repr

/-- Whether a scope declares a name. -/
def Scope.declares (s : Scope) (name : String) : Bool :=
  (s.names.lookup name).isSome

/-- The open scopes, innermost first; none at the top level of a program. -/
abbrev Scopes := List Scope

namespace Scopes

/-- Whether a return is allowed. -/
def inFunction (scopes : Scopes) : Bool :=
  match scopes with
  | s :: _ => s.inFunction
  | [] => false

/-- The distance of the innermost scope that declares a name. -/
def distance? (scopes : Scopes) (name : String) : Option Nat :=
  scopes.findIdx? (·.declares name)

/-- The entry of an access: none if it is global. -/
def entry (scopes : Scopes) (id : NodeId) (name : String) : List Entry :=
  ((scopes.distance? name).map (id, ·)).toList

/-- Whether the innermost scope declares a name that may not be read yet. -/
def isPending (scopes : Scopes) (name : String) : Bool :=
  match scopes with
  | s :: _ => s.names.lookup name == some false
  | [] => false

/-- Declares a name in the innermost scope; it may not be read yet.  Globals are not tracked. -/
def declare (scopes : Scopes) (name : Token) : Except Fault Scopes :=
  match scopes with
  | [] => .ok []
  | s :: outer =>
    if s.declares name.lexeme then .error (name.line, .alreadyDeclared)
    else .ok ({ s with names := (name.lexeme, false) :: s.names } :: outer)

/-- Allows a declared name to be read. -/
def define (scopes : Scopes) (name : Token) : Scopes :=
  match scopes with
  | [] => []
  | s :: outer => { s with names := (name.lexeme, true) :: s.names } :: outer

/-- Declares a name that may be read at once. -/
def introduce (scopes : Scopes) (name : Token) : Except Fault Scopes := do
  return (← scopes.declare name).define name

/-- Opens the scope of a block. -/
def openBlock (scopes : Scopes) : Scopes :=
  { inFunction := scopes.inFunction } :: scopes

/-- Opens the scope of a function with the given parameters. -/
def openFunction (scopes : Scopes) (parameters : List Token) : Except Fault Scopes :=
  parameters.foldlM introduce ({ inFunction := true } :: scopes)

end Scopes

end Resolution

open Resolution

mutual

/-- The distances of the accesses in an expression.  `own?` is the global, if any, whose
initializer the expression stands in; a local's own name is pending in the innermost scope. -/
def Expr.resolve (own? : Option String) (scopes : Scopes) : Expr → Except Fault (List Entry)
  | .literal _ => return []
  | .group inner => inner.resolve own? scopes
  | .unary _ operand => operand.resolve own? scopes
  | .binary left _ right | .logical left _ right => do
    let first ← left.resolve own? scopes
    return first ++ (← right.resolve own? scopes)
  | .read id name =>
    if scopes.isPending name.lexeme || own? == some name.lexeme then
      throw (name.line, .readInOwnInitializer)
    else return scopes.entry id name.lexeme
  | .assign id name value => do
    return (← value.resolve own? scopes) ++ scopes.entry id name.lexeme
  | .call callee _ arguments => do
    let first ← callee.resolve own? scopes
    return first ++ (← Expr.resolveAll own? scopes arguments)
  | .get object _ => object.resolve own? scopes
  | .set object _ value => do
    let first ← value.resolve own? scopes
    return first ++ (← object.resolve own? scopes)

/-- The distances of the accesses in expressions that follow each other. -/
def Expr.resolveAll (own? : Option String) (scopes : Scopes) :
    List Expr → Except Fault (List Entry)
  | [] => return []
  | e :: es => do
    let first ← e.resolve own? scopes
    return first ++ (← Expr.resolveAll own? scopes es)

end

/-- The distances of the accesses in an expression that may be missing. -/
def Expr.resolveOption (own? : Option String) (scopes : Scopes) :
    Option Expr → Except Fault (List Entry)
  | some e => e.resolve own? scopes
  | none => return []

mutual

/-- The scopes after a statement, and the distances of the accesses in it. -/
def Stmt.resolve (scopes : Scopes) : Stmt → Except Fault (Scopes × List Entry)
  | .expression e | .print e => return (scopes, ← e.resolve none scopes)
  | .var name initializer => do
    let declared ← scopes.declare name
    let own? := if scopes.isEmpty then some name.lexeme else none
    let entries ← Expr.resolveOption own? declared initializer
    return (declared.define name, entries)
  | .block body => do
    let (_, entries) ← Stmt.resolveAll scopes.openBlock body
    return (scopes, entries)
  | .branch condition yes none => do
    let first ← condition.resolve none scopes
    let (scopes, entries) ← yes.resolve scopes
    return (scopes, first ++ entries)
  | .branch condition yes (some no) => do
    let first ← condition.resolve none scopes
    let (scopes, second) ← yes.resolve scopes
    let (scopes, third) ← no.resolve scopes
    return (scopes, first ++ second ++ third)
  | .loop condition body => do
    let first ← condition.resolve none scopes
    let (scopes, second) ← body.resolve scopes
    return (scopes, first ++ second)
  | .function name parameters body => do
    let scopes ← scopes.introduce name
    let (_, entries) ← Stmt.resolveAll (← scopes.openFunction parameters) body
    return (scopes, entries)
  | .ret keyword value => do
    if !scopes.inFunction then throw (keyword.line, .returnOutsideFunction)
    return (scopes, ← Expr.resolveOption none scopes value)
  | .cls name => return (← scopes.introduce name, [])

/-- The scopes after statements that follow each other, and the distances of the accesses in
them. -/
def Stmt.resolveAll (scopes : Scopes) : List Stmt → Except Fault (Scopes × List Entry)
  | [] => return (scopes, [])
  | s :: ss => do
    let (scopes, first) ← s.resolve scopes
    let (scopes, others) ← Stmt.resolveAll scopes ss
    return (scopes, first ++ others)

end

/-- **The distances of the accesses in a program**, or the first thing it is refused for. -/
def resolve (program : List Stmt) : Except Fault (List Entry) := do
  return (← Stmt.resolveAll [] program).2

/-! ## Tables -/

/-- A table of distances by the identity of the access. -/
abbrev Distances := Std.TreeMap NodeId Nat

/-- A table with more entries; an entry replaces an older one for the same access. -/
def Distances.add (table : Distances) (entries : List Entry) : Distances :=
  entries.foldl (fun table (id, distance) => table.insert id distance) table

end Lox
