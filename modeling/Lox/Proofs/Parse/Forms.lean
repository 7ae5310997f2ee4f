import Lox.Proofs.Parse.Advance
import Lox.Proofs.Parse.Position
import Lox.Proofs.Parse.Shape
import Lox.Proofs.Tree.Forms

/-!
# The form of parsed trees

Whatever the tokens are, and whatever faults there are among them, a statement that is read has its
declarations in their places and the form that later stages count on, and the names in it are
identifiers of the input.

What a rule reads is described by a property of its result, given that the tokens ahead are from a
list.  No rule looks back, so the property of the whole follows from those of the parts: operators
were taken as tokens of their kinds, names as identifiers, and a list in parentheses has at most as
many members as there was room for.  Faults do not get into the way: a rule that fails has no
result, and a declaration that failed leaves no statement.

* `Rule.Builds` — what a rule reads has a property, if it reads from among the given tokens.
* `Rule.Builds.Whole`, `Rule.Builds.Inner` — what declarations and statements are read to.
* `parse_builds` — what programs are read to.
-/

namespace Lox

open Parse

namespace Parse

variable {α β : Type}

/-! ## Rules -/

/-- From tokens among the given ones the rule leaves tokens among them, and what it reads is such
that `post`. -/
def Rule.Builds (tokens : List Token) (rule : Rule α) (post : α → Prop) : Prop :=
  ∀ ⦃c : Cursor⦄ ⦃a : α⦄ ⦃d : Cursor⦄, c.rest ⊆ tokens → rule c = .ok a d →
    post a ∧ d.rest ⊆ tokens

/-- The identifiers among the tokens. -/
def IsName (tokens : List Token) (t : Token) : Prop :=
  t ∈ tokens ∧ t.kind = .identifier

namespace Rule.Builds

variable {tokens : List Token} {kind : Kind} {tooMany : SyntaxFault}

/-- The second part of a sequence can count on what the first has read. -/
theorem bind {x : Rule α} {f : α → Rule β} {mid : α → Prop} {post : β → Prop}
    (hx : Rule.Builds tokens x mid) (hf : ∀ a, mid a → Rule.Builds tokens (f a) post) :
    Rule.Builds tokens (x >>= f) post := by
  intro c b d within hc
  obtain ⟨a, e, ha, hb⟩ := bind_eq_ok.1 hc
  obtain ⟨left, within⟩ := hx within ha
  exact hf a left within hb

/-- A rule that takes nothing has its result at once, which has the property. -/
theorem pure {a : α} {post : α → Prop} (h : post a) : Rule.Builds tokens (pure a) post := by
  intro c x d within hc
  obtain ⟨rfl, rfl⟩ := pure_eq_ok.1 hc
  exact ⟨h, within⟩

/-- What becomes of a result has to have the property. -/
theorem map {x : Rule α} {f : α → β} {post : β → Prop}
    (h : Rule.Builds tokens x fun a => post (f a)) : Rule.Builds tokens (f <$> x) post := by
  intro c b d within hc
  obtain ⟨a, ha, rfl⟩ := map_eq_ok.1 hc
  exact h within ha

/-- What is read has every property that the known one implies. -/
theorem mono {x : Rule α} {post post' : α → Prop} (h : Rule.Builds tokens x post)
    (weaker : ∀ a, post a → post' a) : Rule.Builds tokens x post' :=
  fun _ a _ within hc => (h within hc).imp_left (weaker a)

/-- Whichever of two rules is followed, what it reads has the property. -/
theorem ite {p : Prop} [Decidable p] {x y : Rule α} {post : α → Prop}
    (hx : Rule.Builds tokens x post) (hy : Rule.Builds tokens y post) :
    Rule.Builds tokens (if p then x else y) post := by
  split
  · exact hx
  · exact hy

/-- A rule that fails reads nothing. -/
theorem fail {fault : SyntaxFault} {post : α → Prop} : Rule.Builds tokens (fail fault) post :=
  fun _ _ _ _ hc => absurd hc fail_eq_ok

/-- A look at the end reads nothing. -/
theorem ended : Rule.Builds tokens ended fun _ => True := by
  intro c b d within hc
  rw [← (ended_eq_ok hc).2]
  exact ⟨trivial, within⟩

/-- A look ahead reads nothing. -/
theorem sees : Rule.Builds tokens (sees kind) fun _ => True := by
  intro c b d within hc
  rw [← (sees_eq_ok hc).2]
  exact ⟨trivial, within⟩

/-- A token that is taken is one of the given ones. -/
theorem acceptAny {kinds : List Kind} :
    Rule.Builds tokens (acceptAny kinds) fun found => ∀ t ∈ found, t ∈ tokens ∧ t.kind ∈ kinds := by
  intro c found d within hc
  cases found with
  | none =>
      rw [← (acceptAny_eq_none hc).1]
      exact ⟨by simp, within⟩
  | some t =>
      obtain ⟨hk, taken, -⟩ := acceptAny_eq_some hc
      rw [taken, List.cons_subset] at within
      exact ⟨by simpa using ⟨within.1, hk⟩, within.2⟩

/-- A token that is taken is from the list, and of the kind. -/
theorem accept :
    Rule.Builds tokens (accept kind) fun found => ∀ t ∈ found, t ∈ tokens ∧ t.kind = kind :=
  acceptAny.mono fun found taken t ht => by simpa using taken t ht

/-- A token is taken, or another way is gone. -/
theorem ifNext {yes : Token → Rule α} {no : Rule α} {post : α → Prop}
    (hy : ∀ t, Rule.Builds tokens (yes t) post) (hn : Rule.Builds tokens no post) :
    Rule.Builds tokens (ifNext kind yes no) post := by
  refine accept.bind fun found _ => ?_
  cases found with
  | some t => exact hy t
  | none => exact hn

/-- A token that has to be there is from the list, and of the kind. -/
theorem expect {what : Expected} :
    Rule.Builds tokens (expect kind what) fun t => t ∈ tokens ∧ t.kind = kind := by
  refine accept.bind fun found taken => ?_
  cases found with
  | none => exact .fail
  | some t => exact .pure (taken t rfl)

/-- Nothing is asked of a constant. -/
theorem acceptLiteral : Rule.Builds tokens acceptLiteral fun _ => True := by
  intro c found d within hc
  cases found with
  | none =>
      rw [← acceptLiteral_eq_none hc]
      exact ⟨trivial, within⟩
  | some value =>
      obtain ⟨t, -, taken, -⟩ := acceptLiteral_eq_some hc
      rw [taken, List.cons_subset] at within
      exact ⟨trivial, within.2⟩

/-- Nothing is asked of an identity. -/
theorem fresh : Rule.Builds tokens fresh fun _ => True := by
  intro c id d within hc
  obtain ⟨-, rfl⟩ := fresh_eq_ok hc
  exact ⟨trivial, within⟩

/-- A list of items is no longer than there is room. -/
theorem separated {item : Rule α} {post : α → Prop} (h : Rule.Builds tokens item post)
    (room : Nat) : Rule.Builds tokens (separated tooMany item room) fun xs =>
      xs.length ≤ room ∧ ∀ x ∈ xs, post x := by
  induction room with
  | zero => exact .fail
  | succ room ih =>
      refine h.bind fun x hx => accept.bind fun comma _ => ?_
      cases comma with
      | none => exact .pure (by simpa using hx)
      | some t => exact ih.bind fun xs hxs => .pure (by simpa [hx] using hxs)

/-- **A list in parentheses has at most 255 members**, each of which has the property. -/
theorem parenthesized {item : Rule α} {post : α → Prop} (h : Rule.Builds tokens item post) :
    Rule.Builds tokens (parenthesized tooMany item) fun xs =>
      xs.length ≤ 255 ∧ ∀ x ∈ xs, post x :=
  sees.bind fun _ _ => .ite (.pure (by simp)) (h.separated maxArity)

/-! ## Expressions

The rule for expressions is a parameter, given that it reads expressions of the form. -/

section
variable {rule : Rule Expr} (h : Rule.Builds tokens rule (Expr.Formed (IsName tokens)))
include h

/-- The loop over the operators of one level: each has one of the kinds of the level. -/
theorem chain {kinds : List Kind} {node : Expr → Token → Expr → Expr}
    (hnode : ∀ left operator right, operator.kind ∈ kinds → left.Formed (IsName tokens) →
      right.Formed (IsName tokens) → (node left operator right).Formed (IsName tokens))
    (bound : Nat) {left : Expr} (hl : left.Formed (IsName tokens)) :
    Rule.Builds tokens (chain kinds node rule bound left) (Expr.Formed (IsName tokens)) := by
  induction bound generalizing left with
  | zero => exact .pure hl
  | succ bound ih =>
      refine acceptAny.bind fun operator taken => ?_
      cases operator with
      | none => exact .pure hl
      | some operator => exact h.bind fun right hr => ih (hnode _ _ _ (taken _ rfl).2 hl hr)

/-- A level begins with an operand of the level below, and the loop keeps the form. -/
theorem level {kinds : List Kind} {node : Expr → Token → Expr → Expr}
    (hnode : ∀ left operator right, operator.kind ∈ kinds → left.Formed (IsName tokens) →
      right.Formed (IsName tokens) → (node left operator right).Formed (IsName tokens))
    (bound : Nat) :
    Rule.Builds tokens (level kinds node rule bound) (Expr.Formed (IsName tokens)) :=
  h.bind fun _ hl => chain h hnode bound hl

/-- A constant, an identifier or an expression in parentheses. -/
theorem primary : Rule.Builds tokens (primary rule) (Expr.Formed (IsName tokens)) := by
  refine acceptLiteral.bind fun value _ => ?_
  cases value with
  | some value => exact .pure trivial
  | none =>
      refine accept.bind fun name taken => ?_
      cases name with
      | some name => exact fresh.bind fun id _ => .pure (taken name rfl)
      | none =>
          refine accept.bind fun paren _ => ?_
          cases paren with
          | some paren => exact h.bind fun inner hi => expect.bind fun _ _ => .pure hi
          | none => exact .fail

/-- The loop over calls and properties: arguments are not too many, and a property is an
identifier. -/
theorem suffixes (bound : Nat) {e : Expr} (he : e.Formed (IsName tokens)) :
    Rule.Builds tokens (suffixes rule bound e) (Expr.Formed (IsName tokens)) := by
  induction bound generalizing e with
  | zero => exact .pure he
  | succ bound ih =>
      refine accept.bind fun paren _ => ?_
      cases paren with
      | some paren =>
          exact h.parenthesized.bind fun es hes => expect.bind fun paren _ =>
            ih ⟨he, hes.1, Expr.formedAll_iff.2 hes.2⟩
      | none =>
          refine accept.bind fun dot _ => ?_
          cases dot with
          | some dot => exact expect.bind fun name hn => ih ⟨hn, he⟩
          | none => exact .pure he

/-- What is called, or whose property is read, comes first; the loop keeps the form. -/
theorem suffixed (bound : Nat) :
    Rule.Builds tokens (suffixed rule bound) (Expr.Formed (IsName tokens)) :=
  (primary h).bind fun _ he => suffixes h bound he

/-- Operators before their operand are of the two kinds there are. -/
theorem unary (bound : Nat) :
    Rule.Builds tokens (unary rule bound) (Expr.Formed (IsName tokens)) := by
  induction bound with
  | zero => exact suffixed h 0
  | succ bound ih =>
      refine acceptAny.bind fun operator taken => ?_
      cases operator with
      | some operator => exact ih.bind fun operand ho => .pure ⟨(taken _ rfl).2, ho⟩
      | none => exact suffixed h (bound + 1)

/-- Each level has operators of the kind that its node stands for. -/
theorem disjunction (bound : Nat) :
    Rule.Builds tokens (disjunction rule bound) (Expr.Formed (IsName tokens)) := by
  have binary (kinds : List Kind) (hk : kinds ⊆ binaryKinds) (left : Expr) (operator : Token)
      (right : Expr) (taken : operator.kind ∈ kinds) (hl : left.Formed (IsName tokens))
      (hr : right.Formed (IsName tokens)) :
      (Expr.binary left operator right).Formed (IsName tokens) :=
    ⟨hk taken, hl, hr⟩
  have logical (kinds : List Kind) (hk : kinds ⊆ logicalKinds) (left : Expr) (operator : Token)
      (right : Expr) (taken : operator.kind ∈ kinds) (hl : left.Formed (IsName tokens))
      (hr : right.Formed (IsName tokens)) :
      (Expr.logical left operator right).Formed (IsName tokens) :=
    ⟨hk taken, hl, hr⟩
  have factor := level (unary h bound) (binary [.symbol .slash, .symbol .star] (by decide)) bound
  have term := level factor (binary [.symbol .minus, .symbol .plus] (by decide)) bound
  have comparison := level term (binary [.symbol .greater, .symbol .greaterEqual, .symbol .less,
    .symbol .lessEqual] (by decide)) bound
  have equality := level comparison (binary [.symbol .bangEqual, .symbol .equalEqual] (by decide))
    bound
  have conjunction := level equality (logical [.keyword .and] (by decide)) bound
  exact level conjunction (logical [.keyword .or] (by decide)) bound

omit h in
/-- What is assigned is a variable or a property that was read. -/
theorem assignTo {target value : Expr} (line : Nat) (ht : target.Formed (IsName tokens))
    (hv : value.Formed (IsName tokens)) :
    Rule.Builds tokens (assignTo target line value) (Expr.Formed (IsName tokens)) := by
  intro c e d within hc
  rcases assignTo_eq_ok hc with ⟨id, name, rfl, rfl, rfl⟩ | ⟨object, name, rfl, rfl, rfl⟩
  · exact ⟨⟨ht, hv⟩, within⟩
  · exact ⟨⟨ht.1, ht.2, hv⟩, within⟩

/-- The target of an assignment is a name or a property that was read. -/
theorem assignment (bound : Nat) :
    Rule.Builds tokens (assignment rule bound) (Expr.Formed (IsName tokens)) := by
  refine (disjunction h bound).bind fun target ht => accept.bind fun equal _ => ?_
  cases equal with
  | some equal => exact h.bind fun value hv => assignTo equal.line ht hv
  | none => exact .pure ht

end

/-- **An expression that is read has the form**, with any bound. -/
theorem expression (bound : Nat) :
    Rule.Builds tokens (expression bound) (Expr.Formed (IsName tokens)) := by
  induction bound with
  | zero => exact .fail
  | succ bound ih => exact assignment ih (bound + 1)

/-! ## Statements

A declaration may stand where a statement may not, so there are two properties: `Whole` is that of
declarations, and `Inner` adds for statements that they declare nothing. -/

/-- A statement in the form, with its declarations in their places. -/
def Whole (tokens : List Token) (s : Stmt) : Prop :=
  s.Shaped ∧ s.Formed (IsName tokens)

/-- Such a statement that is itself no declaration: one that can be a branch or a body. -/
def Inner (tokens : List Token) (s : Stmt) : Prop :=
  s.declares = false ∧ Whole tokens s

/-- Such statements. -/
def WholeAll (tokens : List Token) (ss : List Stmt) : Prop :=
  Stmt.ShapedAll ss ∧ Stmt.FormedAll (IsName tokens) ss

/-- A `for` loop is no declaration: it is a loop, or a block around one. -/
theorem inner_forLoop {tokens : List Token} {initializer : Option Stmt}
    {condition increment : Option Expr} {body : Stmt} (hi : ∀ s ∈ initializer, Whole tokens s)
    (hc : ∀ e ∈ condition, e.Formed (IsName tokens))
    (hn : ∀ e ∈ increment, e.Formed (IsName tokens)) (hb : Inner tokens body) :
    Inner tokens (forLoop initializer condition increment body) := by
  have shaped : (forLoop initializer condition increment body).declares = false ∧
      (forLoop initializer condition increment body).Shaped :=
    Grammar.forLoop_eq_asWhile .. ▸
      Grammar.shaped_asWhile (fun s hs => (hi s hs).1) ⟨hb.1, hb.2.1⟩
  exact ⟨shaped.1, shaped.2, formed_forLoop (fun s hs => (hi s hs).2) hc hn hb.2.2⟩

/-- A clause that is there, as a clause that can be missing. -/
theorem someExpression (bound : Nat) : Rule.Builds tokens (some <$> Parse.expression bound)
    fun value => ∀ e ∈ value, e.Formed (IsName tokens) :=
  .map ((expression bound).mono fun e he => by simpa using he)

/-- A clause that is not missing. -/
theorem optionalUpTo (bound : Nat) : Rule.Builds tokens (optionalUpTo kind bound)
    fun value => ∀ e ∈ value, e.Formed (IsName tokens) :=
  sees.bind fun _ _ => .ite (.pure (by simp)) (someExpression bound)

/-- An expression as a statement. -/
theorem expressionStatement (bound : Nat) :
    Rule.Builds tokens (expressionStatement bound) (Inner tokens) :=
  (expression bound).bind fun _ he => expect.bind fun _ _ => .pure ⟨rfl, trivial, he⟩

/-- What `print` prints. -/
theorem printed (bound : Nat) : Rule.Builds tokens (printed bound) (Inner tokens) :=
  (expression bound).bind fun _ he => expect.bind fun _ _ => .pure ⟨rfl, trivial, he⟩

/-- What `return` returns. -/
theorem returned (bound : Nat) (keyword : Token) :
    Rule.Builds tokens (returned bound keyword) (Inner tokens) := by
  rw [returned_eq]
  exact (optionalUpTo bound).bind fun value hv => expect.bind fun _ _ => .pure ⟨rfl, trivial, hv⟩

/-- A variable is an identifier. -/
theorem variableDeclared (bound : Nat) :
    Rule.Builds tokens (variableDeclared bound) (Whole tokens) := by
  have value (found : Option Token) : Rule.Builds tokens
      (found.elim (Pure.pure none) fun _ => some <$> Parse.expression bound)
      fun value => ∀ e ∈ value, e.Formed (IsName tokens) := by
    cases found with
    | none => exact .pure (by simp)
    | some equal => exact someExpression bound
  rw [variableDeclared_eq]
  exact expect.bind fun name hn => accept.bind fun found _ => (value found).bind
    fun initializer hi => expect.bind fun _ _ => .pure ⟨trivial, hn, hi⟩

/-- So is the name of a class. -/
theorem classDeclared : Rule.Builds tokens classDeclared (Whole tokens) := by
  refine expect.bind fun name hn => expect.bind fun _ _ => accept.bind fun brace _ => ?_
  cases brace with
  | some brace => exact .pure ⟨trivial, hn⟩
  | none => exact .fail

/-- The first clause of a `for` loop may declare a variable, for it stands in a block of its own. -/
theorem forInitializer (bound : Nat) : Rule.Builds tokens (forInitializer bound)
    fun found => ∀ s ∈ found, Whole tokens s := by
  refine accept.bind fun semicolon _ => ?_
  cases semicolon with
  | some semicolon => exact .pure (by simp)
  | none =>
      refine accept.bind fun keyword _ => ?_
      cases keyword with
      | some keyword =>
          exact .map ((variableDeclared bound).mono fun s hs => by simpa using hs)
      | none =>
          exact .map ((expressionStatement bound).mono fun s hs => by simpa using hs.2)

section
variable {statement : Rule Stmt} {declaration : Rule (Option Stmt)}
  (hs : Rule.Builds tokens statement (Inner tokens))
  (hd : Rule.Builds tokens declaration fun found => ∀ s ∈ found, Whole tokens s)

include hd in
/-- Declarations one after another; those that failed are left out. -/
theorem declarations (braced : Bool) (bound : Nat) :
    Rule.Builds tokens (declarations declaration braced bound)
      (WholeAll tokens) := by
  induction bound with
  | zero => exact .pure ⟨trivial, trivial⟩
  | succ bound ih =>
      unfold Parse.declarations
      refine ended.bind fun _ _ => sees.bind fun _ _ => .ite (.pure ⟨trivial, trivial⟩) ?_
      refine hd.bind fun first hfirst => ih.bind fun others hothers => .pure ?_
      cases first with
      | none => exact hothers
      | some s =>
          have hs := hfirst s rfl
          exact ⟨⟨hs.1, hothers.1⟩, hs.2, hothers.2⟩

include hd in
/-- The declarations of a block. -/
theorem block (bound : Nat) :
    Rule.Builds tokens (block declaration bound) (WholeAll tokens) :=
  (declarations hd true bound).bind fun _ hb => expect.bind fun _ _ => .pure hb

include hd in
/-- A function: an identifier, at most 255 more, and declarations. -/
theorem functionDeclared (bound : Nat) :
    Rule.Builds tokens (functionDeclared declaration bound) (Whole tokens) :=
  expect.bind fun _ hn => expect.bind fun _ _ =>
    expect.parenthesized.bind fun _ hp => expect.bind fun _ _ => expect.bind fun _ _ =>
      (block hd bound).bind fun _ hb => .pure ⟨hb.1, hn, hp, hb.2⟩

include hs in
/-- The branches of an `if` declare nothing. -/
theorem branching (bound : Nat) :
    Rule.Builds tokens (branching statement bound) (Inner tokens) := by
  refine expect.bind fun _ _ => (expression bound).bind fun condition hc => expect.bind fun _ _ =>
    hs.bind fun yes hy => accept.bind fun keyword _ => ?_
  cases keyword with
  | some keyword => exact hs.bind fun no hn => .pure ⟨rfl, ⟨⟨hy.1, hy.2.1⟩, hn.1, hn.2.1⟩,
      hc, hy.2.2, hn.2.2⟩
  | none => exact .pure ⟨rfl, ⟨hy.1, hy.2.1⟩, hc, hy.2.2⟩

include hs in
/-- The body of a loop declares nothing. -/
theorem looping (bound : Nat) : Rule.Builds tokens (looping statement bound) (Inner tokens) :=
  expect.bind fun _ _ => (expression bound).bind fun _ hc => expect.bind fun _ _ =>
    hs.bind fun _ hb => .pure ⟨rfl, ⟨hb.1, hb.2.1⟩, hc, hb.2.2⟩

include hs in
/-- Nor does that of a `for` loop. -/
theorem counting (bound : Nat) : Rule.Builds tokens (counting statement bound) (Inner tokens) :=
  expect.bind fun _ _ => (forInitializer bound).bind fun _ hi =>
    (optionalUpTo bound).bind fun _ hc => expect.bind fun _ _ =>
      (optionalUpTo bound).bind fun _ hn => expect.bind fun _ _ =>
        hs.bind fun _ hb => .pure (inner_forLoop hi hc hn hb)

include hs hd in
/-- Any statement. -/
theorem statementOf (bound : Nat) :
    Rule.Builds tokens (statementOf statement declaration bound) (Inner tokens) := by
  rw [statementOf_eq]
  exact .ifNext (fun _ => counting hs bound) <| .ifNext (fun _ => branching hs bound) <|
    .ifNext (fun _ => looping hs bound) <| .ifNext (fun keyword => returned bound keyword) <|
      .ifNext (fun _ => printed bound) <|
        .ifNext (fun _ => .map ((block hd bound).mono fun body hb => ⟨rfl, hb⟩)) <|
          expressionStatement bound

include hs hd in
/-- Any declaration. -/
theorem declared (bound : Nat) :
    Rule.Builds tokens (declared statement declaration bound) (Whole tokens) := by
  rw [declared_eq]
  exact .ifNext (fun _ => classDeclared) <| .ifNext (fun _ => functionDeclared hd bound) <|
    .ifNext (fun _ => variableDeclared bound) <|
      (statementOf hs hd bound).mono fun s hs => hs.2

end

/-- After a fault there is nothing to have a form, and the tokens left are still given ones. -/
theorem recovering {rule : Rule Stmt} (ha : rule.Advances)
    (h : Rule.Builds tokens rule (Whole tokens)) :
    Rule.Builds tokens (recovering rule) fun found => ∀ s ∈ found, Whole tokens s := by
  intro c found d within hc
  cases found with
  | some s => simpa using h within (recovering_eq_some hc)
  | none =>
      obtain ⟨fault, e, he, rfl⟩ := recovering_eq_none hc
      have later := (afterFault_suffix e.rest).trans (ha.of_error he).rest
      exact ⟨by simp, fun t ht => within (later.subset ht)⟩

/-- Both rules, by induction on the bound they share. -/
theorem statement_declaration (bound : Nat) :
    Rule.Builds tokens (statement bound) (Inner tokens) ∧
      Rule.Builds tokens (declaration bound) fun found => ∀ s ∈ found, Whole tokens s := by
  induction bound with
  | zero => exact ⟨.fail, .pure (by simp)⟩
  | succ bound ih =>
      obtain ⟨hs, hd⟩ := ih
      obtain ⟨has, had⟩ := Rule.Advances.statement_declaration bound
      exact ⟨statementOf hs hd _, recovering (.declared has had _) (declared hs hd _)⟩

end Rule.Builds

end Parse

/-- Every statement that is read has its declarations in their places and has the form, faults or
not, and its names are in the input. -/
theorem parse_builds (tokens : List Token) (first : NodeId) :
    Stmt.ShapedAll (parse tokens first).statements ∧
      Stmt.FormedAll (IsName tokens) (parse tokens first).statements := by
  have within : (Parse.start tokens first).rest ⊆ tokens := (List.takeWhile_sublist _).subset
  have program : Rule.Builds tokens (program (tokens.length + 1)) (Rule.Builds.WholeAll tokens) :=
    Rule.Builds.declarations (Rule.Builds.statement_declaration _).2 false _
  rw [parse_eq, parseCursor]
  cases hp : Parse.program (tokens.length + 1) (Parse.start tokens first) with
  | ok ss d => exact (program within hp).1
  | error fault d => exact ⟨trivial, trivial⟩

end Lox
