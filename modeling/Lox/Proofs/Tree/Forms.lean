import Lox.Parse

/-!
# The form of trees

What later stages count on and no type of the trees says: operators are of the kinds that their
nodes stand for, names are such as they can be, and there are at most 255 parameters and arguments.
The parser has kinds and limits of its own, in its rules.  Nothing here is defined by those rules:
the operators, the constants and the limit are written out, so that what is proved of the parser in
terms of them says what its trees look like and not only that it built them.

* `unaryKinds`, `binaryKinds`, `logicalKinds` — the operators of each kind of node.
* `Token.IsConstant` — the tokens that are constants, and their values.
* `Expr.Formed`, `Stmt.Formed` — the form of a tree, given which tokens can be names in it.
* `formed_forLoop` — a `for` loop has the form if its parts have it.
-/

namespace Lox

open Parse

/-- The operators before their operand. -/
def unaryKinds : List Kind :=
  [.symbol .bang, .symbol .minus]

/-- The operators between two operands that are both evaluated. -/
def binaryKinds : List Kind :=
  [.symbol .bangEqual, .symbol .equalEqual, .symbol .greater, .symbol .greaterEqual, .symbol .less,
    .symbol .lessEqual, .symbol .minus, .symbol .plus, .symbol .slash, .symbol .star]

/-- The operators of which the left operand can decide. -/
def logicalKinds : List Kind :=
  [.keyword .and, .keyword .or]

/-! ## Constants

Five kinds of tokens are constants.  A keyword has its value by what it is, a number and a string
hold theirs; neither the lexeme nor the line has a part in it. -/

/-- The token is a constant with the value. -/
inductive Token.IsConstant : Token → Literal → Prop
  | nil {lexeme : String} {line : Nat} : IsConstant ⟨.keyword .nil, lexeme, line, ()⟩ .nil
  | true {lexeme : String} {line : Nat} :
      IsConstant ⟨.keyword .true, lexeme, line, ()⟩ (.bool Bool.true)
  | false {lexeme : String} {line : Nat} :
      IsConstant ⟨.keyword .false, lexeme, line, ()⟩ (.bool Bool.false)
  | number {lexeme : String} {line : Nat} {x : Float} :
      IsConstant ⟨.number, lexeme, line, x⟩ (.number x)
  | string {lexeme : String} {line : Nat} {s : String} :
      IsConstant ⟨.string, lexeme, line, s⟩ (.string s)

/-- The constants are what the parser takes for constants, with the same values. -/
theorem Token.isConstant_iff {t : Token} {v : Literal} :
    t.IsConstant v ↔ Literal.ofToken? t = some v := by
  constructor
  · intro h
    cases h <;> rfl
  · intro h
    unfold Literal.ofToken? at h
    split at h <;> cases h <;> constructor

/-! ## Expressions and statements -/

mutual

/-- Operators are of the kinds of their nodes, names are such that `names`, and no call has more than
255 arguments. -/
def Expr.Formed (names : Token → Prop) : Expr → Prop
  | .literal _ => True
  | .group inner => inner.Formed names
  | .unary operator operand => operator.kind ∈ unaryKinds ∧ operand.Formed names
  | .binary left operator right =>
    operator.kind ∈ binaryKinds ∧ left.Formed names ∧ right.Formed names
  | .logical left operator right =>
    operator.kind ∈ logicalKinds ∧ left.Formed names ∧ right.Formed names
  | .read _ name => names name
  | .assign _ name value => names name ∧ value.Formed names
  | .call callee _ arguments =>
    callee.Formed names ∧ arguments.length ≤ 255 ∧ Expr.FormedAll names arguments
  | .get object name => names name ∧ object.Formed names
  | .set object name value => names name ∧ object.Formed names ∧ value.Formed names

/-- All of the expressions have the form. -/
def Expr.FormedAll (names : Token → Prop) : List Expr → Prop
  | [] => True
  | e :: es => e.Formed names ∧ Expr.FormedAll names es

end

mutual

/-- The expressions of a statement have the form, names are such that `names`, and no function has
more than 255 parameters. -/
def Stmt.Formed (names : Token → Prop) : Stmt → Prop
  | .expression e | .print e => e.Formed names
  | .var name initializer => names name ∧ ∀ e ∈ initializer, e.Formed names
  | .block body => Stmt.FormedAll names body
  | .branch condition yes none => condition.Formed names ∧ yes.Formed names
  | .branch condition yes (some no) => condition.Formed names ∧ yes.Formed names ∧ no.Formed names
  | .loop condition body => condition.Formed names ∧ body.Formed names
  | .function name parameters body =>
    names name ∧ (parameters.length ≤ 255 ∧ ∀ p ∈ parameters, names p) ∧
      Stmt.FormedAll names body
  | .ret _ value => ∀ e ∈ value, e.Formed names
  | .cls name => names name

/-- All of the statements have the form. -/
def Stmt.FormedAll (names : Token → Prop) : List Stmt → Prop
  | [] => True
  | s :: ss => s.Formed names ∧ Stmt.FormedAll names ss

end

section
variable {names : Token → Prop}

/-- The form of a list is that of its members. -/
theorem Expr.formedAll_iff {es : List Expr} :
    Expr.FormedAll names es ↔ ∀ e ∈ es, e.Formed names := by
  induction es with
  | nil => simp [Expr.FormedAll]
  | cons e es ih => simp [Expr.FormedAll, ih]

/-! The form is the same for all names, except that they are looked at. -/

mutual

theorem Expr.Formed.anyNames : ∀ e : Expr, e.Formed names → e.Formed fun _ => True
  | .literal _, _ => trivial
  | .group inner, h => Expr.Formed.anyNames inner h
  | .unary _ operand, h => ⟨h.1, Expr.Formed.anyNames operand h.2⟩
  | .binary left _ right, h | .logical left _ right, h =>
      ⟨h.1, Expr.Formed.anyNames left h.2.1, Expr.Formed.anyNames right h.2.2⟩
  | .read _ _, _ => trivial
  | .assign _ _ value, h => ⟨trivial, Expr.Formed.anyNames value h.2⟩
  | .call callee _ arguments, h =>
      ⟨Expr.Formed.anyNames callee h.1, h.2.1, Expr.FormedAll.anyNames arguments h.2.2⟩
  | .get object _, h => ⟨trivial, Expr.Formed.anyNames object h.2⟩
  | .set object _ value, h =>
      ⟨trivial, Expr.Formed.anyNames object h.2.1, Expr.Formed.anyNames value h.2.2⟩

theorem Expr.FormedAll.anyNames : ∀ es : List Expr, Expr.FormedAll names es →
    Expr.FormedAll (fun _ => True) es
  | [], _ => trivial
  | e :: es, h => ⟨Expr.Formed.anyNames e h.1, Expr.FormedAll.anyNames es h.2⟩

end

mutual

theorem Stmt.Formed.anyNames : ∀ s : Stmt, s.Formed names → s.Formed fun _ => True
  | .expression e, h | .print e, h => Expr.Formed.anyNames e h
  | .var _ _, h => ⟨trivial, fun e he => Expr.Formed.anyNames e (h.2 e he)⟩
  | .block body, h => Stmt.FormedAll.anyNames body h
  | .branch condition yes none, h =>
      ⟨Expr.Formed.anyNames condition h.1, Stmt.Formed.anyNames yes h.2⟩
  | .branch condition yes (some no), h =>
      ⟨Expr.Formed.anyNames condition h.1, Stmt.Formed.anyNames yes h.2.1,
        Stmt.Formed.anyNames no h.2.2⟩
  | .loop condition body, h =>
      ⟨Expr.Formed.anyNames condition h.1, Stmt.Formed.anyNames body h.2⟩
  | .function _ _ body, h =>
      ⟨trivial, ⟨h.2.1.1, fun _ _ => trivial⟩, Stmt.FormedAll.anyNames body h.2.2⟩
  | .ret _ _, h => fun e he => Expr.Formed.anyNames e (h e he)
  | .cls _, _ => trivial

theorem Stmt.FormedAll.anyNames : ∀ ss : List Stmt, Stmt.FormedAll names ss →
    Stmt.FormedAll (fun _ => True) ss
  | [], _ => trivial
  | s :: ss, h => ⟨Stmt.Formed.anyNames s h.1, Stmt.FormedAll.anyNames ss h.2⟩

end

/-- A loop has the form that its parts have. -/
theorem formed_forLoop {initializer : Option Stmt} {condition increment : Option Expr}
    {body : Stmt} (hi : ∀ s ∈ initializer, s.Formed names) (hc : ∀ e ∈ condition, e.Formed names)
    (hn : ∀ e ∈ increment, e.Formed names) (hb : body.Formed names) :
    (forLoop initializer condition increment body).Formed names := by
  cases initializer <;> cases condition <;> cases increment <;>
    simp_all [forLoop, Stmt.Formed, Stmt.FormedAll, Expr.Formed]

end

end Lox
