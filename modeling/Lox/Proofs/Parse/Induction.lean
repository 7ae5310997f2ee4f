import Lox.Proofs.Parse.Steps

/-!
# What all rules have in common

A rule of the grammar is made of the steps of a reader, one after another.  So a property of rules
that each step has, and that passes on to sequences, is one of every rule, whatever is read and
whatever the bound is.  Beside it stands a second property, of the rules that take a token: to take
one that must be there has it, and so does any sequence with such a part.  Every statement has it,
for each of them has a mark of its own, a semicolon at least.

There are two dozen rules, and half a dozen facts about all of them: that they go forward, that they
keep the lines of faults in order, that they pay for each fault with a token, and others.  What is
here is the walk over the grammar, made once.  A fact of its own then only has to say what its
property is and how the few steps of a reader have it.

* `Parser.Closed`, `Parser.Takes` — one property that passes on, and a pair of them.
* `Parser.Closed.expression`, `Parser.Takes.statementOf`, `Parser.Takes.declared` — the rules that
  have them; what a block holds is given, for its declarations are also where faults are recorded.
* `Parser.Recovering` — a property that recovery has as well, and so every rule.
* `Reader.Moves` — relations that every step of a reader stays in, as all rules do then.
-/

namespace Lox.Parse

variable {σ : Type} [Reader σ]

/-- What follows the left side of an assignment, or nothing. -/
def assigned (value : Parser σ Expr) (target : Expr) : Parser σ Expr := do
  match ← accept (.symbol .equal) with
  | some equal => assignTo target equal.line (← value)
  | none => return target

/-- A property that every step has and that passes on to sequences.  All faults are found at the
token in view, but for a target that cannot be assigned, which is blamed on an equals sign further
back; so an assignment is like a step of its own. -/
structure Parser.Closed (P : ∀ {α : Type}, Parser σ α → Prop) : Prop where
  pure {α : Type} (a : α) : P (pure a : Parser σ α)
  fail {α : Type} (fault : SyntaxFault) : P (fail fault : Parser σ α)
  bind {α β : Type} {x : Parser σ α} {f : α → Parser σ β} (h : P x) (hf : ∀ a, P (f a)) :
    P (x >>= f)
  ended : P (ended : Parser σ Bool)
  sees (kind : Kind) : P (sees kind : Parser σ Bool)
  takeAny (kinds : List Kind) : P (takeAny kinds : Parser σ (Option Token))
  acceptAny (kinds : List Kind) : P (acceptAny kinds : Parser σ (Option Token))
  fresh : P (fresh : Parser σ NodeId)
  assigned {bound : Nat} (h : P (expression bound : Parser σ Expr)) (target : Expr) :
    P (assigned (expression bound : Parser σ Expr) target)

namespace Parser.Closed

variable {P : ∀ {α : Type}, Parser σ α → Prop} {α β : Type}

/-- What becomes of a result does not matter. -/
theorem map (closed : Closed P) {x : Parser σ α} (h : P x) (f : α → β) : P (f <$> x) :=
  closed.bind h fun a => closed.pure (f a)

/-- One kind of token is a list of one. -/
theorem accept (closed : Closed P) (kind : Kind) : P (accept kind : Parser σ (Option Token)) :=
  closed.acceptAny [kind]

/-- The same without a look at the end of the input. -/
theorem take (closed : Closed P) (kind : Kind) : P (take kind : Parser σ (Option Token)) :=
  closed.takeAny [kind]

/-- A token that has to be there is taken, or the rule fails. -/
theorem expect (closed : Closed P) (kind : Kind) (what : Expected) :
    P (expect kind what : Parser σ Token) := by
  refine closed.bind (closed.accept kind) fun found => ?_
  cases found with
  | some t => exact closed.pure t
  | none => exact closed.fail _

/-- A constant is a token of one of two lists of kinds. -/
theorem acceptLiteral (closed : Closed P) : P (acceptLiteral : Parser σ (Option Literal)) := by
  refine closed.bind (closed.acceptAny _) fun word => ?_
  cases word with
  | some t => exact closed.pure _
  | none =>
      refine closed.bind (closed.takeAny _) fun value => ?_
      cases value with
      | some t => exact closed.pure _
      | none => exact closed.pure _

theorem separated (closed : Closed P) {item : Parser σ α} (h : P item) (tooMany : SyntaxFault)
    (room : Nat) : P (separated tooMany item room) := by
  induction room with
  | zero => exact closed.fail _
  | succ room ih =>
      refine closed.bind h fun x => closed.bind (closed.accept _) fun comma => ?_
      cases comma with
      | some t => exact closed.bind ih fun xs => closed.pure _
      | none => exact closed.pure _

/-- A list in parentheses, or none. -/
theorem parenthesized (closed : Closed P) {item : Parser σ α} (h : P item)
    (tooMany : SyntaxFault) : P (parenthesized tooMany item) := by
  refine closed.bind (closed.sees _) fun ends => ?_
  cases ends with
  | true => exact closed.pure _
  | false => exact closed.separated h tooMany _

/-! ## Expressions

The rule for expressions is a parameter of the rules that make it up, so each of these says what it
needs of it; `expression` closes the circle by induction on the bound. -/

section
variable {expression : Parser σ Expr}

/-- The loop over the operators of one level. -/
theorem chain (closed : Closed P) {operand : Parser σ Expr} (h : P operand) (kinds : List Kind)
    (node : Expr → Token → Expr → Expr) (bound : Nat) (left : Expr) :
    P (chain kinds node operand bound left) := by
  induction bound generalizing left with
  | zero => exact closed.pure left
  | succ bound ih =>
      refine closed.bind (closed.acceptAny kinds) fun operator => ?_
      cases operator with
      | some t => exact closed.bind h fun right => ih _
      | none => exact closed.pure left

theorem level (closed : Closed P) {operand : Parser σ Expr} (h : P operand) (kinds : List Kind)
    (node : Expr → Token → Expr → Expr) (bound : Nat) : P (level kinds node operand bound) :=
  closed.bind h fun left => closed.chain h kinds node bound left

/-- A constant, a name or an expression in parentheses. -/
theorem primary (closed : Closed P) (h : P expression) : P (primary expression) := by
  refine closed.bind closed.acceptLiteral fun value => ?_
  cases value with
  | some v => exact closed.pure _
  | none =>
      refine closed.bind (closed.accept _) fun name => ?_
      cases name with
      | some t => exact closed.bind closed.fresh fun id => closed.pure _
      | none =>
          refine closed.bind (closed.accept _) fun paren => ?_
          cases paren with
          | some t =>
              exact closed.bind h fun inner => closed.bind (closed.expect _ _) fun _ =>
                closed.pure _
          | none => exact closed.fail _

/-- The loop over calls and properties. -/
theorem suffixes (closed : Closed P) (h : P expression) (bound : Nat) (e : Expr) :
    P (suffixes expression bound e) := by
  induction bound generalizing e with
  | zero => exact closed.pure e
  | succ bound ih =>
      refine closed.bind (closed.accept _) fun paren => ?_
      cases paren with
      | some t =>
          exact closed.bind (closed.parenthesized h _) fun arguments =>
            closed.bind (closed.expect _ _) fun paren => ih _
      | none =>
          refine closed.bind (closed.accept _) fun dot => ?_
          cases dot with
          | some t => exact closed.bind (closed.expect _ _) fun name => ih _
          | none => exact closed.pure e

/-- What is called first, and the loop. -/
theorem suffixed (closed : Closed P) (h : P expression) (bound : Nat) :
    P (suffixed expression bound) :=
  closed.bind (closed.primary h) fun e => closed.suffixes h bound e

/-- Operators before their operand. -/
theorem unary (closed : Closed P) (h : P expression) (bound : Nat) :
    P (unary expression bound) := by
  induction bound with
  | zero => exact closed.suffixed h 0
  | succ bound ih =>
      refine closed.bind (closed.acceptAny _) fun operator => ?_
      cases operator with
      | some t => exact closed.bind ih fun operand => closed.pure _
      | none => exact closed.suffixed h (bound + 1)

theorem disjunction (closed : Closed P) (h : P expression) (bound : Nat) :
    P (disjunction expression bound) := by
  have factor : P (factor expression bound) := closed.level (closed.unary h bound) _ _ bound
  have term : P (term expression bound) := closed.level factor _ _ bound
  have comparison : P (comparison expression bound) := closed.level term _ _ bound
  have equality : P (equality expression bound) := closed.level comparison _ _ bound
  have conjunction : P (conjunction expression bound) := closed.level equality _ _ bound
  exact closed.level conjunction _ _ bound

end

/-- **Every rule for expressions** has the property, with any bound. -/
theorem expression (closed : Closed P) (bound : Nat) : P (expression bound : Parser σ Expr) := by
  induction bound with
  | zero => exact closed.fail _
  | succ bound ih => exact closed.bind (closed.disjunction ih (bound + 1)) (closed.assigned ih)

/-- An expression, unless the token that would end it is ahead. -/
theorem optionalUpTo (closed : Closed P) (kind : Kind) (bound : Nat) :
    P (optionalUpTo kind bound : Parser σ (Option Expr)) := by
  refine closed.bind (closed.sees kind) fun ahead => ?_
  cases ahead with
  | true => exact closed.pure _
  | false => exact closed.map (closed.expression bound) _

end Parser.Closed

/-! ## Statements

A statement takes a token on its way, and what it does before and after may be anything that has the
first property.  The body of a block is a parameter: the rule for it records faults, so it is not a
sequence of the steps before. -/

/-- A property that passes on, and one of the rules that take a token. -/
structure Parser.Takes (P Q : ∀ {α : Type}, Parser σ α → Prop) : Prop where
  closed : Closed P
  weaken {α : Type} {x : Parser σ α} (h : Q x) : P x
  fail {α : Type} (fault : SyntaxFault) : Q (fail fault : Parser σ α)
  expect (kind : Kind) (what : Expected) : Q (expect kind what : Parser σ Token)
  /-- The token is taken before the rest. -/
  before {α β : Type} {x : Parser σ α} {f : α → Parser σ β} (h : Q x) (hf : ∀ a, P (f a)) :
    Q (x >>= f)
  /-- The token is taken by the rest. -/
  behind {α β : Type} {x : Parser σ α} {f : α → Parser σ β} (h : P x) (hf : ∀ a, Q (f a)) :
    Q (x >>= f)

/-- Every rule that takes a token has a property that all of them have. -/
theorem Parser.Closed.takes {P : ∀ {α : Type}, Parser σ α → Prop} (closed : Closed P) :
    Takes P P :=
  ⟨closed, id, closed.fail, closed.expect, closed.bind, closed.bind⟩

namespace Parser.Takes

variable {P Q : ∀ {α : Type}, Parser σ α → Prop} {α β : Type}

/-- What becomes of a result does not matter here either. -/
theorem map (takes : Takes P Q) {x : Parser σ α} (h : Q x) (f : α → β) : Q (f <$> x) :=
  takes.before h fun a => takes.closed.pure (f a)

/-- A rule that ends with a token that must be there. -/
theorem upTo (takes : Takes P Q) {x : Parser σ α} (h : P x) (kind : Kind) (what : Expected)
    (result : α → β) : Q (do let a ← x; let _ ← Parse.expect kind what; return result a) :=
  takes.behind h fun _ => takes.before (takes.expect kind what) fun _ => takes.closed.pure _

theorem expressionStatement (takes : Takes P Q) (bound : Nat) :
    Q (expressionStatement bound : Parser σ Stmt) :=
  takes.upTo (takes.closed.expression bound) _ _ _

/-- The semicolon behind `print` is the token. -/
theorem printed (takes : Takes P Q) (bound : Nat) : Q (printed bound : Parser σ Stmt) :=
  takes.upTo (takes.closed.expression bound) _ _ _

/-- The semicolon behind `return` is the token. -/
theorem returned (takes : Takes P Q) (bound : Nat) (keyword : Token) :
    Q (returned bound keyword : Parser σ Stmt) := by
  rw [returned_eq]
  exact takes.upTo (takes.closed.optionalUpTo _ bound) _ _ _

theorem variableDeclared (takes : Takes P Q) (bound : Nat) :
    Q (variableDeclared bound : Parser σ Stmt) := by
  rw [variableDeclared_eq]
  refine takes.before (takes.expect _ _) fun name =>
    takes.closed.bind (takes.closed.accept _) fun equal => takes.weaken ?_
  refine takes.upTo ?_ _ _ _
  cases equal with
  | some t => exact takes.closed.map (takes.closed.expression bound) _
  | none => exact takes.closed.pure _

theorem classDeclared (takes : Takes P Q) : Q (classDeclared : Parser σ Stmt) := by
  refine takes.before (takes.expect _ _) fun name =>
    takes.closed.bind (takes.closed.expect _ _) fun _ =>
      takes.closed.bind (takes.closed.accept _) fun brace => ?_
  cases brace with
  | some t => exact takes.closed.pure _
  | none => exact takes.closed.fail _

section
variable {statement : Parser σ Stmt} {declaration : Parser σ (Option Stmt)} {bound : Nat}

/-- The closing brace is the token. -/
theorem block (takes : Takes P Q) (h : P (declarations declaration true bound)) :
    Q (block declaration bound) :=
  takes.upTo h _ _ _

theorem functionDeclared (takes : Takes P Q) (h : P (declarations declaration true bound)) :
    Q (functionDeclared declaration bound) := by
  have closed := takes.closed
  refine takes.before (takes.expect _ _) fun name => closed.bind (closed.expect _ _) fun _ => ?_
  refine closed.bind (closed.parenthesized (closed.expect _ _) _) fun parameters => ?_
  refine closed.bind (closed.expect _ _) fun _ => closed.bind (closed.expect _ _) fun _ => ?_
  exact closed.bind (takes.weaken (takes.block h)) fun body => closed.pure _

/-- The opening parenthesis is the token. -/
theorem branching (takes : Takes P Q) (h : P statement) (bound : Nat) :
    Q (branching statement bound) := by
  have closed := takes.closed
  refine takes.before (takes.expect _ _) fun _ => ?_
  refine closed.bind (closed.expression bound) fun condition => ?_
  refine closed.bind (closed.expect _ _) fun _ => closed.bind h fun yes => ?_
  refine closed.bind (closed.accept _) fun keyword => ?_
  cases keyword with
  | some t => exact closed.bind h fun no => closed.pure _
  | none => exact closed.pure _

/-- The opening parenthesis is the token. -/
theorem looping (takes : Takes P Q) (h : P statement) (bound : Nat) :
    Q (looping statement bound) := by
  have closed := takes.closed
  refine takes.before (takes.expect _ _) fun _ => ?_
  refine closed.bind (closed.expression bound) fun condition => ?_
  exact closed.bind (closed.expect _ _) fun _ => closed.bind h fun body => closed.pure _

/-- The first clause of a `for` loop has the first property. -/
theorem forInitializer (takes : Takes P Q) (bound : Nat) :
    P (forInitializer bound : Parser σ (Option Stmt)) := by
  have closed := takes.closed
  refine closed.bind (closed.accept _) fun semicolon => ?_
  cases semicolon with
  | some t => exact closed.pure _
  | none =>
      refine closed.bind (closed.accept _) fun keyword => ?_
      cases keyword with
      | some t => exact closed.map (takes.weaken (takes.variableDeclared bound)) _
      | none => exact closed.map (takes.weaken (takes.expressionStatement bound)) _

/-- The opening parenthesis of the clauses is the token. -/
theorem counting (takes : Takes P Q) (h : P statement) (bound : Nat) :
    Q (counting statement bound) := by
  have closed := takes.closed
  refine takes.before (takes.expect _ _) fun _ => ?_
  refine closed.bind (takes.forInitializer bound) fun initializer => ?_
  refine closed.bind (closed.optionalUpTo _ bound) fun condition => ?_
  refine closed.bind (closed.expect _ _) fun _ => ?_
  refine closed.bind (closed.optionalUpTo _ bound) fun increment => ?_
  exact closed.bind (closed.expect _ _) fun _ => closed.bind h fun body => closed.pure _

/-- **Every statement takes a token.** -/
theorem statementOf (takes : Takes P Q) (hs : P statement)
    (hd : P (declarations declaration true bound)) :
    Q (statementOf statement declaration bound) := by
  refine takes.behind (takes.closed.take _) fun keyword => ?_
  cases keyword with
  | some t => exact takes.counting hs bound
  | none =>
  refine takes.behind (takes.closed.take _) fun keyword => ?_
  cases keyword with
  | some t => exact takes.branching hs bound
  | none =>
  refine takes.behind (takes.closed.take _) fun keyword => ?_
  cases keyword with
  | some t => exact takes.looping hs bound
  | none =>
  refine takes.behind (takes.closed.take _) fun keyword => ?_
  cases keyword with
  | some t => exact takes.returned bound t
  | none =>
  refine takes.behind (takes.closed.take _) fun keyword => ?_
  cases keyword with
  | some t => exact takes.printed bound
  | none =>
  refine takes.behind (takes.closed.take _) fun brace => ?_
  cases brace with
  | some t => exact takes.map (takes.block hd) _
  | none => exact takes.expressionStatement bound

/-- **So does every declaration.** -/
theorem declared (takes : Takes P Q) (hs : P statement)
    (hd : P (declarations declaration true bound)) :
    Q (declared statement declaration bound) := by
  refine takes.behind (takes.closed.take _) fun keyword => ?_
  cases keyword with
  | some t => exact takes.classDeclared
  | none =>
  refine takes.behind (takes.closed.take _) fun keyword => ?_
  cases keyword with
  | some t => exact takes.functionDeclared hd
  | none =>
  refine takes.behind (takes.closed.take _) fun keyword => ?_
  cases keyword with
  | some t => exact takes.variableDeclared bound
  | none => exact takes.statementOf hs hd

end

end Parser.Takes

/-! ## Recovery

Where a fault is recorded, tokens are discarded.  A property that this has as well is one of the
whole program. -/

/-- A property that passes on, also from a rule whose fault is recorded. -/
structure Parser.Recovering (P : ∀ {α : Type}, Parser σ α → Prop) : Prop extends Closed P where
  recovering {rule : Parser σ Stmt} (h : P rule) : P (recovering rule)

namespace Parser.Recovering

variable {P : ∀ {α : Type}, Parser σ α → Prop}

/-- Declarations one after another, with faults between them. -/
theorem declarations (recovers : Recovering P) {declaration : Parser σ (Option Stmt)}
    (h : P declaration) (braced : Bool) (bound : Nat) :
    P (declarations declaration braced bound) := by
  have closed := recovers.toClosed
  induction bound with
  | zero => exact closed.pure _
  | succ bound ih =>
      refine closed.bind closed.ended fun ended => closed.bind (closed.sees _) fun brace => ?_
      split
      · exact closed.pure _
      · exact closed.bind h fun first => closed.bind ih fun others => closed.pure _

/-- A declaration, from the rules for what it holds. -/
theorem declared (recovers : Recovering P) {statement : Parser σ Stmt}
    {declaration : Parser σ (Option Stmt)} (hs : P statement) (hd : P declaration) (bound : Nat) :
    P (declared statement declaration bound) :=
  recovers.toClosed.takes.declared hs (recovers.declarations hd true bound)

/-- Both rules, by induction on the bound they share. -/
theorem statement_declaration (recovers : Recovering P) (bound : Nat) :
    P (statement bound : Parser σ Stmt) ∧ P (declaration bound : Parser σ (Option Stmt)) := by
  induction bound with
  | zero => exact ⟨recovers.fail _, recovers.pure _⟩
  | succ bound ih =>
      obtain ⟨hs, hd⟩ := ih
      exact ⟨recovers.toClosed.takes.statementOf hs (recovers.declarations hd true _),
        recovers.recovering (recovers.declared hs hd _)⟩

theorem statement (recovers : Recovering P) (bound : Nat) :
    P (statement bound : Parser σ Stmt) :=
  (recovers.statement_declaration bound).1

theorem declaration (recovers : Recovering P) (bound : Nat) :
    P (declaration bound : Parser σ (Option Stmt)) :=
  (recovers.statement_declaration bound).2

/-- **Every program**, whatever faults there are in it. -/
theorem program (recovers : Recovering P) (bound : Nat) :
    P (program bound : Parser σ (List Stmt)) :=
  recovers.declarations (recovers.declaration bound) false bound

end Parser.Recovering

/-! ## Relations that rules stay in

Most properties of a rule are about the reader before it and the reader after it.  A relation
between readers that is transitive, and that every step stays in, is one that all rules stay in. -/

/-- The reader a rule leaves, whether it succeeds or fails. -/
def Parser.after {α : Type} (rule : Parser σ α) (c : σ) : σ :=
  match rule c with
  | .ok _ d => d
  | .error _ d => d

/-- A rule leaves a reader that is related to the one it began with. -/
def Parser.Keeps (R : σ → σ → Prop) {α : Type} (rule : Parser σ α) : Prop :=
  ∀ c, R c (rule.after c)

/-- A relation between readers that every step of a reader stays in. -/
structure Reader.Moves (R : σ → σ → Prop) : Prop where
  refl (c : σ) : R c c
  trans {c d e : σ} : R c d → R d e → R c e
  advance (c : σ) : R c (Reader.advance c)
  mint (c : σ) : R c (Reader.mint c).2

namespace Parser.Keeps

variable {R : σ → σ → Prop} {α β : Type} {rule : Parser σ α} {c d : σ}

omit [Reader σ] in
theorem of_ok (h : rule.Keeps R) {a : α} (hc : rule c = .ok a d) : R c d := by
  simpa only [after, hc] using h c

omit [Reader σ] in
theorem of_error (h : rule.Keeps R) {fault : Fault} (hc : rule c = .error fault d) : R c d := by
  simpa only [after, hc] using h c

/-- A sequence stays in a relation that is transitive. -/
theorem bind (moves : Reader.Moves R) {f : α → Parser σ β} (h : rule.Keeps R)
    (hf : ∀ a, (f a).Keeps R) : Parser.Keeps R (rule >>= f) := by
  intro c
  cases hc : rule c with
  | ok a d =>
      have step : Parser.after (rule >>= f) c = (f a).after d := by simp only [after, bind_ok hc]
      exact step ▸ moves.trans (h.of_ok hc) (hf a d)
  | error fault d =>
      have step : Parser.after (rule >>= f) c = d := by simp only [after, bind_error hc]
      exact step ▸ h.of_error hc

/-- A token that is taken is one step forward. -/
theorem takeAny (moves : Reader.Moves R) (kinds : List Kind) :
    Parser.Keeps R (takeAny kinds : Parser σ (Option Token)) := by
  intro c
  unfold after Parse.takeAny
  split
  next h =>
    split at h
    · cases h; exact moves.advance c
    · cases h; exact moves.refl c
  next h => split at h <;> cases h

/-- The same with a look at the end of the input first. -/
theorem acceptAny (moves : Reader.Moves R) (kinds : List Kind) :
    Parser.Keeps R (acceptAny kinds : Parser σ (Option Token)) := by
  intro c
  cases hend : Reader.atEnd c with
  | true => simpa only [after, Parse.acceptAny, hend, if_true] using moves.refl c
  | false =>
      simpa only [after, Parse.acceptAny, hend, Bool.false_eq_true, if_false] using
        takeAny moves kinds c

/-- An assignment to what is no target records a fault and goes on. -/
theorem assignTo (moves : Reader.Moves R) (target : Expr) (line : Nat) (value : Expr) :
    Parser.Keeps R (assignTo target line value : Parser σ Expr) := by
  have fresh : Parser.Keeps R (fresh : Parser σ NodeId) := moves.mint
  unfold Parse.assignTo
  split
  · exact fresh.bind moves fun id => moves.refl
  · exact moves.refl
  · exact moves.refl

/-- An assignment stays in the relation if its value does. -/
theorem assigned (moves : Reader.Moves R) {value : Parser σ Expr} (h : value.Keeps R)
    (target : Expr) : Parser.Keeps R (assigned value target) := by
  refine (acceptAny moves _).bind moves fun equal => ?_
  cases equal with
  | some t => exact h.bind moves fun value => assignTo moves _ _ _
  | none => exact moves.refl

end Parser.Keeps

/-- Rules stay in a relation that every step of the reader stays in. -/
theorem Reader.Moves.closed {R : σ → σ → Prop} (moves : Moves R) :
    Parser.Closed (σ := σ) (Parser.Keeps R) where
  pure _ := moves.refl
  fail _ := moves.refl
  bind h hf := h.bind moves hf
  ended := moves.refl
  sees _ := moves.refl
  takeAny := .takeAny moves
  acceptAny := .acceptAny moves
  fresh := moves.mint
  assigned := .assigned moves

/-- So they do if recovery stays in it as well. -/
theorem Reader.Moves.recovering {R : σ → σ → Prop} (moves : Moves R)
    (recover : ∀ fault c, R c (Reader.recover fault c)) :
    Parser.Recovering (σ := σ) (Parser.Keeps R) where
  toClosed := moves.closed
  recovering {rule} h c := by
    unfold Parser.after Parse.recovering
    cases hc : rule c with
    | ok s d => exact h.of_ok hc
    | error fault d => exact moves.trans (h.of_error hc) (recover fault d)

end Lox.Parse
