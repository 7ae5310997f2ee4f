import Lox.Proofs.Parse.Steps
import Lox.Proofs.Tree.Paired

/-!
# Two readers in step

The same rule is run on two readers whose tokens in view correspond, wherever they get to.  Rules
look at nothing but the kinds of tokens, which corresponding tokens share, so that both runs take
the same way: they come to trees of one shape, or fail with one fault at corresponding tokens.

The two readers may be of one list and its copy on other lines, or of any two lists of equal kinds;
what is compared is given as a pairing of tokens and of identities.  The proof is again a walk over
the grammar, with a result that is more than a property: each rule says which shape its result has,
so that the tree of a whole program is known node by node to be made of the tokens that were in
view.

* `Tandem` — what a relation between two readers must promise, so that every step keeps it.
* `InStep` — two rules do the same on readers in step.
* `Tandem.expression`, `Tandem.statement_declaration`, `Tandem.program` — the rules of the grammar
  do, with any bound.
-/

namespace Lox

namespace Parse

variable {σ α α' β β' : Type} {p : Pairing} {R : σ → σ → Prop}

/-- One fault, blamed on corresponding tokens. -/
structure Fault.Paired (p : Pairing) (e e' : Fault) : Prop where
  fault : e.2 = e'.2
  blamed : ∃ t t', p.tokens t t' ∧ e.1 = t.line ∧ e'.1 = t'.line

/-- From readers in step, two rules come to readers in step, with results of which `Q` holds or with
one fault. -/
def InStep (p : Pairing) (R : σ → σ → Prop) (Q : α → α' → Prop) (x : Parser σ α)
    (y : Parser σ α') : Prop :=
  ∀ ⦃c d⦄, R c d →
    match x c, y d with
    | .ok a c', .ok b d' => R c' d' ∧ Q a b
    | .error e c', .error e' d' => R c' d' ∧ e.Paired p e'
    | _, _ => False

namespace InStep

variable {Q : α → α' → Prop} {P : β → β' → Prop} {x : Parser σ α} {y : Parser σ α'}

theorem pure {a : α} {b : α'} (h : Q a b) : InStep p R Q (pure a) (pure b) :=
  fun _ _ hR => ⟨hR, h⟩

theorem throw {e e' : Fault} (h : e.Paired p e') :
    InStep p R Q (throw e : Parser σ α) (throw e' : Parser σ α') :=
  fun _ _ hR => ⟨hR, h⟩

/-- A sequence does the same if its second part does on all results that correspond. -/
theorem bind {f : α → Parser σ β} {g : α' → Parser σ β'} (h : InStep p R Q x y)
    (hf : ∀ {a b}, Q a b → InStep p R P (f a) (g b)) : InStep p R P (x >>= f) (y >>= g) := by
  intro c d hR
  have first := h hR
  cases hx : x c with
  | ok a c' =>
      cases hy : y d with
      | ok b d' =>
          rw [hx, hy] at first
          rw [bind_ok hx, bind_ok hy]
          exact hf first.2 first.1
      | error e' d' => simp only [hx, hy] at first
  | error e c' =>
      cases hy : y d with
      | ok b d' => simp only [hx, hy] at first
      | error e' d' =>
          rw [hx, hy] at first
          rw [bind_error hx, bind_error hy]
          exact first

/-- What becomes of results that correspond corresponds. -/
theorem map {f : α → β} {g : α' → β'} (h : InStep p R Q x y) (hQ : ∀ {a b}, Q a b → P (f a) (g b)) :
    InStep p R P (f <$> x) (g <$> y) :=
  h.bind fun hab => pure (hQ hab)

/-- A choice is made the same way on both sides. -/
theorem ite {b : Bool} {x' : Parser σ α} {y' : Parser σ α'} (h : InStep p R Q x y)
    (h' : InStep p R Q x' y') :
    InStep p R Q (if b = true then x else x') (if b = true then y else y') := by
  cases b with
  | true => exact h
  | false => exact h'

end InStep

variable [Reader σ]

/-- What a relation between readers promises: the tokens in view correspond, and every step keeps
it. -/
structure Tandem (p : Pairing) (R : σ → σ → Prop) : Prop where
  atEnd {c d} : R c d → Reader.atEnd c = Reader.atEnd d
  seen {c d} : R c d → p.tokens (Reader.seen c) (Reader.seen d)
  advance {c d} : R c d → R (Reader.advance c) (Reader.advance d)
  mint {c d} : R c d →
    p.nodes (Reader.mint c).1 (Reader.mint d).1 ∧ R (Reader.mint c).2 (Reader.mint d).2
  recover {c d e e'} : e.Paired p e' → R c d → R (Reader.recover e c) (Reader.recover e' d)

namespace Tandem

variable (keeps : Tandem p R) {kind : Kind} {kinds : List Kind} {Q : α → α' → Prop}
  {tooMany : SyntaxFault}
include keeps

/-! ## Steps

Each step of a reader sees a kind at most, so it does the same on both sides and leaves the readers
in step. -/

/-- A fault is blamed on the tokens ahead, which correspond. -/
theorem fail {fault : SyntaxFault} :
    InStep p R Q (fail fault : Parser σ α) (Parse.fail fault : Parser σ α') :=
  fun c d hR => ⟨hR, rfl, Reader.seen c, Reader.seen d, keeps.seen hR, rfl, rfl⟩

/-- Both are at the end, or neither is. -/
theorem ended : InStep p R (· = ·) (ended : Parser σ Bool) ended :=
  fun _ _ hR => ⟨hR, keeps.atEnd hR⟩

/-- Both see the kind, or neither does. -/
theorem sees : InStep p R (· = ·) (sees kind : Parser σ Bool) (Parse.sees kind) :=
  fun _ _ hR => ⟨hR, by rw [keeps.atEnd hR, p.kind_eq (keeps.seen hR)]⟩

/-- Both take a token, or neither does, and the tokens correspond. -/
theorem takeAny : InStep p R (Option.Rel (p.Of kinds)) (takeAny kinds : Parser σ (Option Token))
    (Parse.takeAny kinds) := by
  intro c d hR
  have seen := keeps.seen hR
  unfold Parse.takeAny
  rw [← p.kind_eq seen]
  by_cases taken : (Reader.seen c).kind ∈ kinds
  · rw [if_pos taken, if_pos taken]
    exact ⟨keeps.advance hR, .some ⟨seen, taken⟩⟩
  · rw [if_neg taken, if_neg taken]
    exact ⟨hR, .none⟩

/-- The same with a look at the end first. -/
theorem acceptAny : InStep p R (Option.Rel (p.Of kinds))
    (acceptAny kinds : Parser σ (Option Token)) (Parse.acceptAny kinds) := by
  intro c d hR
  unfold Parse.acceptAny
  rw [← keeps.atEnd hR]
  cases Reader.atEnd c with
  | true => exact ⟨hR, .none⟩
  | false => exact keeps.takeAny hR

theorem accept : InStep p R (Option.Rel (p.Of [kind])) (accept kind : Parser σ (Option Token))
    (Parse.accept kind) :=
  keeps.acceptAny

/-- A token of one kind is taken by both readers or by neither, without a look at the end. -/
theorem take : InStep p R (Option.Rel (p.Of [kind])) (take kind : Parser σ (Option Token))
    (Parse.take kind) :=
  keeps.takeAny

/-- Both find the token that has to be there, or both fail at what stands there. -/
theorem expect {what : Expected} : InStep p R (p.Of [kind]) (expect kind what : Parser σ Token)
    (Parse.expect kind what) := by
  refine keeps.accept.bind fun found => ?_
  cases found with
  | some ht => exact .pure ht
  | none => exact keeps.fail

/-- Both take a constant, or neither does, and the constants are those of the tokens. -/
theorem acceptLiteral : InStep p R (Option.Rel p.Literals)
    (acceptLiteral : Parser σ (Option Literal)) Parse.acceptLiteral := by
  refine keeps.acceptAny.bind fun word => ?_
  cases word with
  | some ht => exact .pure (p.rel_ofToken? ht.tokens)
  | none =>
      refine keeps.takeAny.bind fun value => ?_
      cases value with
      | some ht => exact .pure (p.rel_ofToken? ht.tokens)
      | none => exact .pure .none

/-- The identities that are given out correspond. -/
theorem fresh : InStep p R p.nodes (fresh : Parser σ NodeId) Parse.fresh :=
  fun _ _ hR => (keeps.mint hR).symm

/-! ## Lists in parentheses

Lists are of the same length, member by member. -/

/-- Items between commas; both lists are too long, or neither is. -/
theorem separated {item : Parser σ α} {item' : Parser σ α'} (h : InStep p R Q item item')
    (room : Nat) : InStep p R (List.Forall₂ Q) (separated tooMany item room)
      (Parse.separated tooMany item' room) := by
  induction room with
  | zero => exact keeps.fail
  | succ room ih =>
      refine h.bind fun hitem => keeps.accept.bind fun comma => ?_
      cases comma with
      | some _ => exact ih.bind fun hitems => .pure (.cons hitem hitems)
      | none => exact .pure (.cons hitem .nil)

/-- A list in parentheses, or none. -/
theorem parenthesized {item : Parser σ α} {item' : Parser σ α'} (h : InStep p R Q item item') :
    InStep p R (List.Forall₂ Q) (parenthesized tooMany item)
      (Parse.parenthesized tooMany item') := by
  refine keeps.sees.bind fun closes => ?_
  obtain rfl := closes
  exact .ite (.pure .nil) (keeps.separated h maxArity)

/-! ## Expressions

What an expression is made of is known from the kinds on the way: an operator of a level has one of
its kinds, a name is an identifier. -/

section
variable {x y : Parser σ Expr} (h : InStep p R (Expr.Paired p) x y)
include h

/-- The loop over the operators of one level, from trees that correspond. -/
theorem chain {node : Expr → Token → Expr → Expr}
    (hnode : ∀ {l l' op op' r r'}, l.Paired p l' → p.Of kinds op op' → r.Paired p r' →
      (node l op r).Paired p (node l' op' r')) (bound : Nat) {left left' : Expr}
    (hleft : left.Paired p left') : InStep p R (Expr.Paired p) (chain kinds node x bound left)
      (Parse.chain kinds node y bound left') := by
  induction bound generalizing left left' with
  | zero => exact .pure hleft
  | succ bound ih =>
      refine keeps.acceptAny.bind fun operator => ?_
      cases operator with
      | some hop => exact h.bind fun hright => ih (hnode hleft hop hright)
      | none => exact .pure hleft

theorem level {node : Expr → Token → Expr → Expr}
    (hnode : ∀ {l l' op op' r r'}, l.Paired p l' → p.Of kinds op op' → r.Paired p r' →
      (node l op r).Paired p (node l' op' r')) (bound : Nat) :
    InStep p R (Expr.Paired p) (level kinds node x bound) (Parse.level kinds node y bound) :=
  h.bind fun hleft => keeps.chain h hnode bound hleft

/-- Constants, names and parentheses. -/
theorem primary : InStep p R (Expr.Paired p) (primary x) (Parse.primary y) := by
  refine keeps.acceptLiteral.bind fun value => ?_
  cases value with
  | some hv => exact .pure (.literal hv)
  | none =>
      refine keeps.accept.bind fun name => ?_
      cases name with
      | some hname => exact keeps.fresh.bind fun hid => .pure (.read hid hname)
      | none =>
          refine keeps.accept.bind fun paren => ?_
          cases paren with
          | some _ => exact h.bind fun he => keeps.expect.bind fun _ => .pure (.group he)
          | none => exact keeps.fail

/-- The loop over calls and properties, from trees that correspond. -/
theorem suffixes (bound : Nat) {e e' : Expr} (he : e.Paired p e') :
    InStep p R (Expr.Paired p) (suffixes x bound e) (Parse.suffixes y bound e') := by
  induction bound generalizing e e' with
  | zero => exact .pure he
  | succ bound ih =>
      refine keeps.accept.bind fun paren => ?_
      cases paren with
      | some _ =>
          refine (keeps.parenthesized h).bind fun hargs => keeps.expect.bind fun hparen => ?_
          exact ih (.call he hparen (Expr.pairedAll_iff.2 hargs))
      | none =>
          refine keeps.accept.bind fun dot => ?_
          cases dot with
          | some _ => exact keeps.expect.bind fun hname => ih (.get he hname)
          | none => exact .pure he

/-- What is called first, and the loop. -/
theorem suffixed (bound : Nat) :
    InStep p R (Expr.Paired p) (suffixed x bound) (Parse.suffixed y bound) :=
  (keeps.primary h).bind fun he => keeps.suffixes h bound he

/-- Operators before their operand. -/
theorem unary (bound : Nat) :
    InStep p R (Expr.Paired p) (unary x bound) (Parse.unary y bound) := by
  induction bound with
  | zero => exact keeps.suffixed h 0
  | succ bound ih =>
      refine keeps.acceptAny.bind fun operator => ?_
      cases operator with
      | some hop => exact ih.bind fun he => .pure (.unary hop he)
      | none => exact keeps.suffixed h (bound + 1)

theorem disjunction (bound : Nat) :
    InStep p R (Expr.Paired p) (disjunction x bound) (Parse.disjunction y bound) := by
  have binary (kinds : List Kind) (sub : kinds ⊆ binaryKinds) {l l' r r' : Expr}
      {op op' : Token} (hl : l.Paired p l') (hop : p.Of kinds op op') (hr : r.Paired p r') :
      (Expr.binary l op r).Paired p (.binary l' op' r') :=
    .binary hl (hop.mono sub) hr
  have logical (kinds : List Kind) (sub : kinds ⊆ logicalKinds) {l l' r r' : Expr}
      {op op' : Token} (hl : l.Paired p l') (hop : p.Of kinds op op') (hr : r.Paired p r') :
      (Expr.logical l op r).Paired p (.logical l' op' r') :=
    .logical hl (hop.mono sub) hr
  have factor := keeps.level (keeps.unary h bound)
    (binary [.symbol .slash, .symbol .star] (by decide)) bound
  have term := keeps.level factor (binary [.symbol .minus, .symbol .plus] (by decide)) bound
  have comparison := keeps.level term (binary [.symbol .greater, .symbol .greaterEqual,
    .symbol .less, .symbol .lessEqual] (by decide)) bound
  have equality := keeps.level comparison
    (binary [.symbol .bangEqual, .symbol .equalEqual] (by decide)) bound
  have conjunction := keeps.level equality (logical [.keyword .and] (by decide)) bound
  exact keeps.level conjunction (logical [.keyword .or] (by decide)) bound

omit h in
/-- A target is a variable in both runs, or a property, or cannot be assigned. -/
theorem assignTo {target target' value value' : Expr} {equal equal' : Token}
    (ht : target.Paired p target') (hequal : p.tokens equal equal') (hv : value.Paired p value') :
    InStep p R (Expr.Paired p) (assignTo target equal.line value : Parser σ Expr)
      (Parse.assignTo target' equal'.line value') := by
  have blamed : Fault.Paired p (equal.line, .invalidAssignmentTarget)
      (equal'.line, .invalidAssignmentTarget) :=
    ⟨rfl, equal, equal', hequal, rfl, rfl⟩
  cases ht with
  | read _ hname => exact keeps.fresh.bind fun hid => .pure (.assign hid hname hv)
  | get ho hname => exact .pure (.set ho hname hv)
  | _ => exact .throw blamed

/-- An operation on both sides, or an assignment on both. -/
theorem assignment (bound : Nat) :
    InStep p R (Expr.Paired p) (assignment x bound) (Parse.assignment y bound) := by
  refine (keeps.disjunction h bound).bind fun ht => keeps.accept.bind fun equal => ?_
  cases equal with
  | some hequal => exact h.bind fun hv => keeps.assignTo ht hequal.tokens hv
  | none => exact .pure ht

end

/-- **Expressions do the same on readers in step**, with any bound. -/
theorem expression (bound : Nat) :
    InStep p R (Expr.Paired p) (expression bound : Parser σ Expr) (Parse.expression bound) := by
  induction bound with
  | zero => exact keeps.fail
  | succ bound ih => exact keeps.assignment ih (bound + 1)

/-! ## Statements

The tokens of a statement that its node keeps are a name or the keyword of a `return`; the others
leave no trace in the tree. -/

/-- An expression that is not missing. -/
theorem someExpression (bound : Nat) : InStep p R (Option.Rel (Expr.Paired p))
    (some <$> Parse.expression bound : Parser σ (Option Expr)) (some <$> Parse.expression bound) :=
  (keeps.expression bound).map .some

/-- A clause is missing on both sides, or on neither. -/
theorem optionalUpTo (bound : Nat) : InStep p R (Option.Rel (Expr.Paired p))
    (optionalUpTo kind bound : Parser σ (Option Expr)) (Parse.optionalUpTo kind bound) := by
  refine keeps.sees.bind fun ends => ?_
  obtain rfl := ends
  exact .ite (.pure .none) (keeps.someExpression bound)

/-- An expression and its semicolon. -/
theorem expressionStatement (bound : Nat) : InStep p R (Stmt.Paired p)
    (expressionStatement bound : Parser σ Stmt) (Parse.expressionStatement bound) :=
  (keeps.expression bound).bind fun he => keeps.expect.bind fun _ => .pure (.expression he)

theorem printed (bound : Nat) : InStep p R (Stmt.Paired p)
    (printed bound : Parser σ Stmt) (Parse.printed bound) :=
  (keeps.expression bound).bind fun he => keeps.expect.bind fun _ => .pure (.print he)

/-- What `return` returns, with the keywords. -/
theorem returned (bound : Nat) {keyword keyword' : Token}
    (hkeyword : p.Of [.keyword .return_] keyword keyword') : InStep p R (Stmt.Paired p)
      (returned bound keyword : Parser σ Stmt) (Parse.returned bound keyword') := by
  rw [returned_eq, returned_eq]
  exact (keeps.optionalUpTo bound).bind fun hv =>
    keeps.expect.bind fun _ => .pure (.ret hkeyword hv)

/-- A variable, with or without an initializer. -/
theorem variableDeclared (bound : Nat) : InStep p R (Stmt.Paired p)
    (variableDeclared bound : Parser σ Stmt) (Parse.variableDeclared bound) := by
  have value {found found' : Option Token}
      (hfound : Option.Rel (p.Of [.symbol .equal]) found found') :
      InStep p R (Option.Rel (Expr.Paired p))
        (found.elim (Pure.pure none) fun _ => some <$> Parse.expression bound :
          Parser σ (Option Expr))
        (found'.elim (Pure.pure none) fun _ => some <$> Parse.expression bound) := by
    cases hfound with
    | none => exact .pure .none
    | some _ => exact keeps.someExpression bound
  rw [variableDeclared_eq]
  exact keeps.expect.bind fun hname => keeps.accept.bind fun hfound => (value hfound).bind
    fun hinit => keeps.expect.bind fun _ => .pure (.var hname hinit)

theorem classDeclared : InStep p R (Stmt.Paired p) (classDeclared : Parser σ Stmt)
    Parse.classDeclared := by
  refine keeps.expect.bind fun hname => keeps.expect.bind fun _ => keeps.accept.bind fun brace => ?_
  cases brace with
  | some _ => exact .pure (.cls hname)
  | none => exact keeps.fail

/-- The first clause of a `for` loop. -/
theorem forInitializer (bound : Nat) : InStep p R (Option.Rel (Stmt.Paired p))
    (forInitializer bound : Parser σ (Option Stmt)) (Parse.forInitializer bound) := by
  refine keeps.accept.bind fun semicolon => ?_
  cases semicolon with
  | some _ => exact .pure .none
  | none =>
      refine keeps.accept.bind fun keyword => ?_
      cases keyword with
      | some _ => exact (keeps.variableDeclared bound).map .some
      | none => exact (keeps.expressionStatement bound).map .some

/-! ### Statements that hold others

What they hold is read by a rule that is a parameter, and does the same by assumption. -/

section
variable {x y : Parser σ (Option Stmt)} (h : InStep p R (Option.Rel (Stmt.Paired p)) x y)
include h

/-- As many declarations on both sides, one by one. -/
theorem declarations (braced : Bool) (bound : Nat) : InStep p R (Stmt.PairedAll p)
    (declarations x braced bound) (Parse.declarations y braced bound) := by
  induction bound with
  | zero => exact .pure .nil
  | succ bound ih =>
      refine keeps.ended.bind fun ends => keeps.sees.bind fun closes => ?_
      obtain rfl := ends
      obtain rfl := closes
      refine .ite (.pure .nil) (h.bind fun hfirst => ih.bind fun hothers => .pure ?_)
      cases hfirst with
      | none => exact hothers
      | some hs => exact .cons hs hothers

theorem block (bound : Nat) :
    InStep p R (Stmt.PairedAll p) (block x bound) (Parse.block y bound) :=
  (keeps.declarations h true bound).bind fun hbody => keeps.expect.bind fun _ => .pure hbody

/-- A function: its name, its parameters and its body. -/
theorem functionDeclared (bound : Nat) : InStep p R (Stmt.Paired p)
    (functionDeclared x bound) (Parse.functionDeclared y bound) :=
  keeps.expect.bind fun hname => keeps.expect.bind fun _ =>
    (keeps.parenthesized keeps.expect).bind fun hparameters => keeps.expect.bind fun _ =>
      keeps.expect.bind fun _ => (keeps.block h bound).bind fun hbody =>
        .pure (.function hname hparameters hbody)

end

section
variable {x y : Parser σ Stmt} (h : InStep p R (Stmt.Paired p) x y)
include h

/-- An `else` is ahead on both sides, or on neither. -/
theorem branching (bound : Nat) :
    InStep p R (Stmt.Paired p) (branching x bound) (Parse.branching y bound) := by
  refine keeps.expect.bind fun _ => (keeps.expression bound).bind fun he => ?_
  refine keeps.expect.bind fun _ => h.bind fun hyes => keeps.accept.bind fun keyword => ?_
  cases keyword with
  | some _ => exact h.bind fun hno => .pure (.ifElse he hyes hno)
  | none => exact .pure (.ifOnly he hyes)

theorem looping (bound : Nat) :
    InStep p R (Stmt.Paired p) (looping x bound) (Parse.looping y bound) :=
  keeps.expect.bind fun _ => (keeps.expression bound).bind fun he => keeps.expect.bind fun _ =>
    h.bind fun hbody => .pure (.loop he hbody)

/-- The clauses and the body go into trees of one shape. -/
theorem counting (bound : Nat) :
    InStep p R (Stmt.Paired p) (counting x bound) (Parse.counting y bound) :=
  keeps.expect.bind fun _ => (keeps.forInitializer bound).bind fun hi =>
    (keeps.optionalUpTo bound).bind fun hc => keeps.expect.bind fun _ =>
      (keeps.optionalUpTo bound).bind fun hn => keeps.expect.bind fun _ =>
        h.bind fun hbody => .pure (paired_forLoop hi hc hn hbody)

end

/-! ### The mutual recursion

Statements hold declarations and declarations are statements, with one bound for both. -/

section
variable {s s' : Parser σ Stmt} {x y : Parser σ (Option Stmt)}
  (hs : InStep p R (Stmt.Paired p) s s') (h : InStep p R (Option.Rel (Stmt.Paired p)) x y)
include hs h

theorem statementOf (bound : Nat) :
    InStep p R (Stmt.Paired p) (statementOf s x bound) (Parse.statementOf s' y bound) := by
  refine keeps.take.bind fun keyword => ?_
  cases keyword with
  | some _ => exact keeps.counting hs bound
  | none =>
  refine keeps.take.bind fun keyword => ?_
  cases keyword with
  | some _ => exact keeps.branching hs bound
  | none =>
  refine keeps.take.bind fun keyword => ?_
  cases keyword with
  | some _ => exact keeps.looping hs bound
  | none =>
  refine keeps.take.bind fun keyword => ?_
  cases keyword with
  | some hkeyword => exact keeps.returned bound hkeyword
  | none =>
  refine keeps.take.bind fun keyword => ?_
  cases keyword with
  | some _ => exact keeps.printed bound
  | none =>
  refine keeps.take.bind fun brace => ?_
  cases brace with
  | some _ => exact (keeps.block h bound).map .block
  | none => exact keeps.expressionStatement bound

theorem declared (bound : Nat) :
    InStep p R (Stmt.Paired p) (declared s x bound) (Parse.declared s' y bound) := by
  refine keeps.take.bind fun keyword => ?_
  cases keyword with
  | some _ => exact keeps.classDeclared
  | none =>
  refine keeps.take.bind fun keyword => ?_
  cases keyword with
  | some _ => exact keeps.functionDeclared h bound
  | none =>
  refine keeps.take.bind fun keyword => ?_
  cases keyword with
  | some _ => exact keeps.variableDeclared bound
  | none => exact keeps.statementOf hs h bound

end

/-- A fault in one run is one in the other, and both go on after it. -/
theorem recovering {x y : Parser σ Stmt} (h : InStep p R (Stmt.Paired p) x y) :
    InStep p R (Option.Rel (Stmt.Paired p)) (recovering x) (Parse.recovering y) := by
  intro c d hR
  have read := h hR
  unfold Parse.recovering
  cases hx : x c with
  | ok s c' =>
      cases hy : y d with
      | ok s' d' =>
          rw [hx, hy] at read
          exact ⟨read.1, .some read.2⟩
      | error e' d' => simp only [hx, hy] at read
  | error e c' =>
      cases hy : y d with
      | ok s' d' => simp only [hx, hy] at read
      | error e' d' =>
          rw [hx, hy] at read
          exact ⟨keeps.recover read.2 read.1, .none⟩

/-- Both rules, by induction on the bound they share. -/
theorem statement_declaration (bound : Nat) :
    InStep p R (Stmt.Paired p) (statement bound : Parser σ Stmt) (statement bound) ∧
      InStep p R (Option.Rel (Stmt.Paired p)) (declaration bound : Parser σ (Option Stmt))
        (declaration bound) := by
  induction bound with
  | zero => exact ⟨keeps.fail, .pure .none⟩
  | succ bound ih =>
      obtain ⟨hs, h⟩ := ih
      exact ⟨keeps.statementOf hs h _, keeps.recovering (keeps.declared hs h _)⟩

/-- **Whole programs are read in step.** -/
theorem program (bound : Nat) :
    InStep p R (Stmt.PairedAll p) (program bound : Parser σ (List Stmt)) (Parse.program bound) :=
  keeps.declarations (keeps.statement_declaration bound).2 false bound

end Tandem

end Parse

end Lox
