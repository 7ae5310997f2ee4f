import Mathlib.Data.List.Forall2
import Lox.Proofs.Tree.Forms

/-!
# Trees of one shape

Two trees are paired if they have the same nodes in the same places, and what stands at
corresponding places of them corresponds: operators, names and other tokens, the tokens that their
constants were taken from, and identities.  A tree that is paired with itself says what it is made
of.

The same relation says two kinds of things.  Between the trees of two parses it says that they
differ in nothing but what the tokens at corresponding places say; and of one tree, paired with
itself, it says which tokens of the source each of its parts comes from.

* `Pairing` — which tokens and which identities correspond.
* `Pairing.Of`, `Pairing.Literals` — corresponding tokens of some kinds, and constants.
* `Expr.Paired`, `Stmt.Paired` — trees of one shape.
* `paired_forLoop` — `for` loops are paired if their parts are.
-/

namespace Lox

open Parse

/-- Which tokens and which identities correspond; tokens that do are of the same kind. -/
structure Pairing where
  tokens : Token → Token → Prop
  nodes : NodeId → NodeId → Prop
  kind_eq : ∀ {t t' : Token}, tokens t t' → t.kind = t'.kind

namespace Pairing

variable (p : Pairing)

/-- Corresponding tokens of one of the given kinds. -/
structure Of (kinds : List Kind) (t t' : Token) : Prop where
  tokens : p.tokens t t'
  kind : t.kind ∈ kinds

/-- Constants that corresponding tokens are: what numbers or strings hold, or what a keyword is. -/
def Literals (v v' : Literal) : Prop :=
  ∃ t t', p.tokens t t' ∧ t.IsConstant v ∧ t'.IsConstant v'

variable {p} {t t' : Token}

theorem Of.mono {kinds kinds' : List Kind} (h : p.Of kinds t t') (sub : kinds ⊆ kinds') :
    p.Of kinds' t t' :=
  ⟨h.tokens, sub h.kind⟩

theorem Of.eq {kind : Kind} (h : p.Of [kind] t t') : t.kind = kind :=
  List.mem_singleton.1 h.kind

/-- Whether a token stands for a constant depends on its kind. -/
theorem rel_ofToken? (h : p.tokens t t') :
    Option.Rel p.Literals (Literal.ofToken? t) (Literal.ofToken? t') := by
  have literals {v v' : Literal} (hv : Literal.ofToken? t = some v)
      (hv' : Literal.ofToken? t' = some v') :
      Option.Rel p.Literals (Literal.ofToken? t) (Literal.ofToken? t') := by
    rw [hv, hv']
    exact .some ⟨t, t', h, Token.isConstant_iff.2 hv, Token.isConstant_iff.2 hv'⟩
  obtain ⟨kind, lexeme, line, payload⟩ := t
  obtain ⟨kind', lexeme', line', payload'⟩ := t'
  obtain rfl : kind = kind' := p.kind_eq h
  cases kind with
  | symbol s => exact .none
  | keyword k =>
      cases k with
      | nil => exact literals rfl rfl
      | true => exact literals rfl rfl
      | false => exact literals rfl rfl
      | _ => exact .none
  | identifier => exact .none
  | string => exact literals rfl rfl
  | number => exact literals rfl rfl
  | eof => exact .none

end Pairing

section
variable (p : Pairing)

/-! ## Expressions

One case for each kind of node, with the kinds that its operator can have. -/

mutual

/-- Expressions of one shape. -/
inductive Expr.Paired : Expr → Expr → Prop
  | literal {v v'} (h : p.Literals v v') : Paired (.literal v) (.literal v')
  | group {e e'} (h : Paired e e') : Paired (.group e) (.group e')
  | unary {op op' e e'} (hop : p.Of unaryKinds op op') (h : Paired e e') :
      Paired (.unary op e) (.unary op' e')
  | binary {op op' l l' r r'} (hl : Paired l l') (hop : p.Of binaryKinds op op')
      (hr : Paired r r') : Paired (.binary l op r) (.binary l' op' r')
  | logical {op op' l l' r r'} (hl : Paired l l') (hop : p.Of logicalKinds op op')
      (hr : Paired r r') : Paired (.logical l op r) (.logical l' op' r')
  | read {id id' name name'} (hid : p.nodes id id') (hname : p.Of [.identifier] name name') :
      Paired (.read id name) (.read id' name')
  | assign {id id' name name' e e'} (hid : p.nodes id id')
      (hname : p.Of [.identifier] name name') (he : Paired e e') :
      Paired (.assign id name e) (.assign id' name' e')
  | call {f f' paren paren' args args'} (hf : Paired f f')
      (hparen : p.Of [.symbol .rightParen] paren paren') (hargs : PairedAll args args') :
      Paired (.call f paren args) (.call f' paren' args')
  | get {e e' name name'} (he : Paired e e') (hname : p.Of [.identifier] name name') :
      Paired (.get e name) (.get e' name')
  | set {e e' name name' v v'} (he : Paired e e') (hname : p.Of [.identifier] name name')
      (hv : Paired v v') : Paired (.set e name v) (.set e' name' v')

/-- Lists of expressions of one shape each. -/
inductive Expr.PairedAll : List Expr → List Expr → Prop
  | nil : PairedAll [] []
  | cons {e e' es es'} (he : Paired e e') (hes : PairedAll es es') :
      PairedAll (e :: es) (e' :: es')

end

/-! ## Statements

Names are identifiers, and the keyword of a `return` is one. -/

mutual

/-- Statements of one shape.  A condition comes from tokens, or is the one that a `for` loop without
a condition is given. -/
inductive Stmt.Paired : Stmt → Stmt → Prop
  | expression {e e'} (he : e.Paired p e') : Paired (.expression e) (.expression e')
  | print {e e'} (he : e.Paired p e') : Paired (.print e) (.print e')
  | var {name name' e e'} (hname : p.Of [.identifier] name name')
      (he : Option.Rel (Expr.Paired p) e e') : Paired (.var name e) (.var name' e')
  | block {body body'} (h : PairedAll body body') : Paired (.block body) (.block body')
  | ifOnly {e e' yes yes'} (he : e.Paired p e') (hyes : Paired yes yes') :
      Paired (.branch e yes none) (.branch e' yes' none)
  | ifElse {e e' yes yes' no no'} (he : e.Paired p e') (hyes : Paired yes yes')
      (hno : Paired no no') : Paired (.branch e yes (some no)) (.branch e' yes' (some no'))
  | loop {e e' body body'} (he : e.Paired p e') (hbody : Paired body body') :
      Paired (.loop e body) (.loop e' body')
  | endless {body body'} (hbody : Paired body body') :
      Paired (.loop (.literal (.bool true)) body) (.loop (.literal (.bool true)) body')
  | function {name name' parameters parameters' body body'}
      (hname : p.Of [.identifier] name name')
      (hparameters : List.Forall₂ (p.Of [.identifier]) parameters parameters')
      (hbody : PairedAll body body') :
      Paired (.function name parameters body) (.function name' parameters' body')
  | ret {keyword keyword' e e'} (hkeyword : p.Of [.keyword .return_] keyword keyword')
      (he : Option.Rel (Expr.Paired p) e e') : Paired (.ret keyword e) (.ret keyword' e')
  | cls {name name'} (hname : p.Of [.identifier] name name') : Paired (.cls name) (.cls name')

/-- Lists of statements of one shape each. -/
inductive Stmt.PairedAll : List Stmt → List Stmt → Prop
  | nil : PairedAll [] []
  | cons {s s' ss ss'} (hs : Paired s s') (hss : PairedAll ss ss') :
      PairedAll (s :: ss) (s' :: ss')

end

end

section
variable {p : Pairing}

theorem Expr.pairedAll_iff {es es' : List Expr} :
    Expr.PairedAll p es es' ↔ List.Forall₂ (Expr.Paired p) es es' := by
  constructor
  · intro h
    induction h using Expr.PairedAll.rec (motive_1 := fun _ _ _ => True) with
    | nil => exact .nil
    | cons he _ _ ih => exact .cons he ih
    | _ => trivial
  · intro h
    induction h with
    | nil => exact .nil
    | cons he _ ih => exact .cons he ih

theorem Stmt.pairedAll_iff {ss ss' : List Stmt} :
    Stmt.PairedAll p ss ss' ↔ List.Forall₂ (Stmt.Paired p) ss ss' := by
  constructor
  · intro h
    induction h using Stmt.PairedAll.rec (motive_1 := fun _ _ _ => True) with
    | nil => exact .nil
    | cons hs _ _ ih => exact .cons hs ih
    | _ => trivial
  · intro h
    induction h with
    | nil => exact .nil
    | cons hs _ ih => exact .cons hs ih

/-- Loops whose condition may be missing. -/
theorem Stmt.paired_loop {condition condition' : Option Expr} {body body' : Stmt}
    (hc : Option.Rel (Expr.Paired p) condition condition') (hb : body.Paired p body') :
    (loop (condition.getD (.literal (.bool true))) body).Paired p
      (loop (condition'.getD (.literal (.bool true))) body') := by
  cases hc with
  | none => exact .endless hb
  | some hc => exact .loop hc hb

/-- `for` loops are paired if their parts are. -/
theorem paired_forLoop {initializer initializer' : Option Stmt}
    {condition condition' increment increment' : Option Expr} {body body' : Stmt}
    (hi : Option.Rel (Stmt.Paired p) initializer initializer')
    (hc : Option.Rel (Expr.Paired p) condition condition')
    (hn : Option.Rel (Expr.Paired p) increment increment') (hb : body.Paired p body') :
    (forLoop initializer condition increment body).Paired p
      (forLoop initializer' condition' increment' body') := by
  have plain := Stmt.paired_loop hc hb
  have counted {e e' : Expr} (he : e.Paired p e') :=
    Stmt.paired_loop hc (.block (.cons hb (.cons (.expression he) .nil)))
  cases hi with
  | none =>
      cases hn with
      | none => exact plain
      | some hn => exact counted hn
  | some hi =>
      cases hn with
      | none => exact .block (.cons hi (.cons plain .nil))
      | some hn => exact .block (.cons hi (.cons (counted hn) .nil))

end

end Lox
