import Mathlib.Data.List.Forall2
import Lox.Resolution

/-!
# Trees that mean the same

Two programs can differ in the identities of their accesses, in the lines of their tokens, in the
names of some locals and in braces around statements, and still do the same.  Which names and
distances correspond depends on the scopes around the place that is looked at.

One notion serves all comparisons of programs here: with other identities, on other lines, with a
local renamed, or with braces added.  Each comparison picks what it allows, and the theorem that two
runs end alike is proved once, for any choice.

* `Likeness` — what two programs, and two runs of them, may differ in.
* `Level` — the scopes around a place in both programs.
* `Expr.Like`, `Stmt.Like` — trees that differ in no other way.
-/

namespace Lox

/-- What two programs may differ in. -/
structure Likeness where
  /-- The lines that correspond. -/
  lines : Nat → Nat → Prop
  /-- What a name is changed to in a renamed scope. -/
  rename : String → String
  injective : ∀ x y, rename x = rename y → x = y
  /-- The distances of the first program. -/
  left : Distances
  /-- The distances of the second program. -/
  right : Distances
  /-- Whether statements of the second program may have braces around them. -/
  braces : Bool
  /-- The accesses that correspond. -/
  accesses : NodeId → Token → NodeId → Token → Prop

namespace Likeness

variable (L : Likeness)

/-- What a name is in a scope, which may be renamed. -/
def name (renamed : Bool) (x : String) : String :=
  if renamed then L.rename x else x

@[simp]
theorem name_false (x : String) : L.name false x = x :=
  rfl

@[simp]
theorem name_true (x : String) : L.name true x = L.rename x :=
  rfl

variable {L}

/-- Different names stay different. -/
theorem name_inj {renamed : Bool} {x y : String} : L.name renamed x = L.name renamed y ↔ x = y := by
  cases renamed with
  | false => exact Iff.rfl
  | true => exact ⟨L.injective x y, congrArg _⟩

end Likeness

/-! ## Scopes side by side

A level is a scope that both programs have, or one that only the second has, for its braces. -/

/-- A scope of the second program. -/
inductive Level where
  /-- A scope of the first program too; its variables may have other names. -/
  | shared (renamed : Bool)
  /-- The scope of braces that the first program does not have. -/
  | extra

namespace Level

/-- The distance in the second program of what has the given one in the first, and whether it is
renamed. -/
def locate : List Level → Nat → Option (Nat × Bool)
  | [], _ => none
  | shared renamed :: _, 0 => some (0, renamed)
  | shared _ :: levels, distance + 1 =>
    (locate levels distance).map fun (distance', renamed) => (distance' + 1, renamed)
  | extra :: levels, distance =>
    (locate levels distance).map fun (distance', renamed) => (distance' + 1, renamed)

/-- Whether the innermost scope is renamed, if both programs have it; globals are not renamed. -/
def innermost? : List Level → Option Bool
  | [] => some false
  | shared renamed :: _ => some renamed
  | extra :: _ => none

end Level

/-! ## Trees side by side

Two trees with the same nodes, where names, lines and identities correspond as the likeness allows.
-/

section
variable (L : Likeness)

/-- Tokens that differ in their lines, and in the name if it is that of a renamed variable. -/
structure Token.Like (renamed : Bool) (t t' : Token) : Prop where
  lines : L.lines t.line t'.line
  same : t' = { t with lexeme := L.name renamed t.lexeme, line := t'.line }

/-- Accesses to one variable. -/
inductive Access.Like (levels : List Level) (id id' : NodeId) (name name' : Token) : Prop
  | toGlobal (left : L.left[id]? = none) (right : L.right[id']? = none)
      (like : name.Like L false name') (paired : L.accesses id name id' name')
  | toLocal {distance distance' : Nat} {renamed : Bool} (left : L.left[id]? = some distance)
      (right : L.right[id']? = some distance')
      (located : Level.locate levels distance = some (distance', renamed))
      (like : name.Like L renamed name') (paired : L.accesses id name id' name')

mutual

/-- Expressions that mean the same inside the given scopes. -/
inductive Expr.Like (levels : List Level) : Expr → Expr → Prop
  | literal (value : Literal) : Like levels (.literal value) (.literal value)
  | group {e e'} (h : Like levels e e') : Like levels (.group e) (.group e')
  | unary {op op' e e'} (hop : op.Like L false op') (h : Like levels e e') :
      Like levels (.unary op e) (.unary op' e')
  | binary {op op' x x' y y'} (hx : Like levels x x') (hop : op.Like L false op')
      (hy : Like levels y y') : Like levels (.binary x op y) (.binary x' op' y')
  | logical {op op' x x' y y'} (hx : Like levels x x') (hop : op.Like L false op')
      (hy : Like levels y y') : Like levels (.logical x op y) (.logical x' op' y')
  | read {id id' name name'} (h : Access.Like L levels id id' name name') :
      Like levels (.read id name) (.read id' name')
  | assign {id id' name name' e e'} (h : Access.Like L levels id id' name name')
      (he : Like levels e e') : Like levels (.assign id name e) (.assign id' name' e')
  | call {f f' paren paren' args args'} (hf : Like levels f f') (hparen : paren.Like L false paren')
      (hargs : LikeAll levels args args') : Like levels (.call f paren args) (.call f' paren' args')
  | get {e e' name name'} (he : Like levels e e') (hname : name.Like L false name') :
      Like levels (.get e name) (.get e' name')
  | set {e e' name name' x x'} (he : Like levels e e') (hname : name.Like L false name')
      (hx : Like levels x x') : Like levels (.set e name x) (.set e' name' x')

/-- Lists of expressions that mean the same, one by one. -/
inductive Expr.LikeAll (levels : List Level) : List Expr → List Expr → Prop
  | nil : LikeAll levels [] []
  | cons {e e' es es'} (he : Like levels e e') (hes : LikeAll levels es es') :
      LikeAll levels (e :: es) (e' :: es')

end

/-- Expressions that mean the same, if they are there. -/
inductive Expr.LikeOption (levels : List Level) : Option Expr → Option Expr → Prop
  | none : LikeOption levels none none
  | some {e e'} (he : e.Like L levels e') : LikeOption levels (some e) (some e')

/-- The names of a function or class: it is printed, so it is the same in both programs. -/
structure Token.LikeName (levels : List Level) (t t' : Token) : Prop where
  like : t.Like L false t'
  shared : ∃ renamed, Level.innermost? levels = some renamed ∧ L.name renamed t.lexeme = t.lexeme

mutual

/-- Statements that mean the same inside the given scopes. -/
inductive Stmt.Like : (levels : List Level) → Stmt → Stmt → Prop
  | expression {levels e e'} (he : e.Like L levels e') :
      Like levels (.expression e) (.expression e')
  | print {levels e e'} (he : e.Like L levels e') : Like levels (.print e) (.print e')
  | var {levels name name' renamed e e'} (shared : Level.innermost? levels = some renamed)
      (hname : name.Like L renamed name') (he : Expr.LikeOption L levels e e') :
      Like levels (.var name e) (.var name' e')
  | block {levels renamed body body'} (h : LikeAll (.shared renamed :: levels) body body') :
      Like levels (.block body) (.block body')
  | ifOnly {levels e e' yes yes'} (he : e.Like L levels e') (hyes : Like levels yes yes') :
      Like levels (.branch e yes none) (.branch e' yes' none)
  | ifElse {levels e e' yes yes' no no'} (he : e.Like L levels e') (hyes : Like levels yes yes')
      (hno : Like levels no no') :
      Like levels (.branch e yes (some no)) (.branch e' yes' (some no'))
  | loop {levels e e' body body'} (he : e.Like L levels e') (hbody : Like levels body body') :
      Like levels (.loop e body) (.loop e' body')
  | function {levels renamed name name' parameters parameters' body body'}
      (hname : name.LikeName L levels name')
      (hparameters : List.Forall₂ (Token.Like L renamed) parameters parameters')
      (hbody : LikeAll (.shared renamed :: levels) body body') :
      Like levels (.function name parameters body) (.function name' parameters' body')
  | ret {levels keyword keyword' e e'} (hkeyword : keyword.Like L false keyword')
      (he : Expr.LikeOption L levels e e') : Like levels (.ret keyword e) (.ret keyword' e')
  | cls {levels name name'} (hname : name.LikeName L levels name') :
      Like levels (.cls name) (.cls name')
  /-- Braces around a statement. -/
  | braces {levels s s'} (allowed : L.braces = true) (h : Like (.extra :: levels) s s') :
      Like levels s (.block [s'])

/-- Lists of statements that mean the same, one by one. -/
inductive Stmt.LikeAll : (levels : List Level) → List Stmt → List Stmt → Prop
  | nil {levels} : LikeAll levels [] []
  | cons {levels s s' ss ss'} (hs : Like levels s s') (hss : LikeAll levels ss ss') :
      LikeAll levels (s :: ss) (s' :: ss')

end

end

namespace Token.Like

variable {L : Likeness} {renamed : Bool} {t t' : Token}

theorem kind (h : t.Like L renamed t') : t'.kind = t.kind := by
  rw [h.same]

theorem lexeme (h : t.Like L renamed t') : t'.lexeme = L.name renamed t.lexeme := by
  rw [h.same]

/-- A token whose name is not changed. -/
theorem lexeme_eq (h : t.Like L false t') : t'.lexeme = t.lexeme :=
  h.lexeme

end Token.Like

/-- Where nothing is renamed both programs call an access by one name. -/
theorem Access.Like.lexeme_eq {L : Likeness} (unrenamed : ∀ x, L.rename x = x) {levels : List Level}
    {id id' : NodeId} {name name' : Token} (h : Access.Like L levels id id' name name') :
    L.lines name.line name'.line ∧ name'.lexeme = name.lexeme := by
  cases h with
  | toGlobal _ _ like _ => exact ⟨like.lines, like.lexeme_eq⟩
  | @toLocal _ _ renamed _ _ _ like _ =>
      refine ⟨like.lines, like.lexeme.trans ?_⟩
      cases renamed with
      | false => rfl
      | true => exact unrenamed _

end Lox
