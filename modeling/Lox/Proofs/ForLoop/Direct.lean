import Lox.Evaluation
import Lox.Proofs.Parse.Forms
import Lox.Proofs.Parse.Identity

/-!
# Loops as they are written

The parser writes a `for` loop with blocks and a `while` loop.  Here is the loop itself, with a
meaning of its own that knows nothing of those blocks.

* `ForLoop` — the clauses and the body, which `ForLoop.parsed` reads; `ForLoop.tree` is what the
  parser makes of them.
* `ForLoop.resolve` — the walk, with all clauses and the body in one scope.
* `ForLoop.exec` — the execution, with one scope for all rounds.
* `ForLoop.parsed_written` — the loops that are read are as the grammar has them: the body, in
  particular, is no declaration.
-/

namespace Lox

open Resolution Parse

/-- Whether a statement can be the first clause of a loop: the declaration of a variable or an
expression. -/
def Stmt.IsClause (s : Stmt) : Prop :=
  (∃ name value, s = .var name value) ∨ ∃ e, s = .expression e

/-- A `for` loop as it is written. -/
structure ForLoop where
  initializer : Option Stmt
  condition : Option Expr
  increment : Option Expr
  body : Stmt

namespace ForLoop

/-- The loop as the parser builds it. -/
def tree (f : ForLoop) : Stmt :=
  forLoop f.initializer f.condition f.increment f.body

/-- What the parser makes of one round: a block, if there is an increment. -/
def round (f : ForLoop) : Stmt :=
  match f.increment with
  | some e => .block [f.body, .expression e]
  | none => f.body

/-- What the parser makes of all rounds. -/
def rounds (f : ForLoop) : Stmt :=
  .loop (f.condition.getD (.literal (.bool true))) f.round

theorem tree_eq (f : ForLoop) : f.tree = match f.initializer with
    | some s => .block [s, f.rounds]
    | none => f.rounds :=
  rfl

/-- The loop is one that the grammar has, with identities of its own. -/
structure Written (f : ForLoop) : Prop where
  initializer : ∀ s ∈ f.initializer, s.IsClause
  body : f.body.declares = false
  shaped : f.body.Shaped
  distinct : f.tree.ids.Nodup

/-! ## Parsing

What the parser reads between the parentheses of a loop and behind them, before it makes a tree of
it. -/

/-- The clauses and the body of a loop as they are read, which is after `for`. -/
def parsed {σ : Type} [Reader σ] (statement : Parser σ Stmt) (bound : Nat) :
    Parser σ ForLoop := do
  let _ ← expect (.symbol .leftParen) .forClausesStart
  let initializer ← forInitializer bound
  let condition ← optionalUpTo (.symbol .semicolon) bound
  let _ ← expect (.symbol .semicolon) .loopConditionEnd
  let increment ← optionalUpTo (.symbol .rightParen) bound
  let _ ← expect (.symbol .rightParen) .forClausesEnd
  return ⟨initializer, condition, increment, ← statement⟩

/-- The parser reads the loop and makes its tree. -/
theorem counting_eq {σ : Type} [Reader σ] (statement : Parser σ Stmt) (bound : Nat) :
    counting statement bound = tree <$> parsed statement bound := by
  simp only [counting, parsed, map_bind, map_pure, tree]

/-! ## Resolution

The clauses and the body are walked over in the order in which they are executed first, in one scope
for them all if the first clause can declare a variable. -/

/-- What each round evaluates, in this order. -/
def repeated (f : ForLoop) : List Stmt :=
  f.condition.toList.map .expression ++ f.body :: f.increment.toList.map .expression

/-- The clauses and the body, in the order in which they are evaluated first. -/
def parts (f : ForLoop) : List Stmt :=
  f.initializer.toList ++ f.repeated

/-- The scopes inside the loop: a new one if there is an initializer. -/
def inner (scopes : Scopes) (f : ForLoop) : Scopes :=
  match f.initializer with
  | some _ => scopes.openBlock
  | none => scopes

/-- **The walk over the loop**: the clauses and the body are all in the scope of the loop. -/
def resolve (scopes : Scopes) (f : ForLoop) : Except Resolution.Fault (List Entry) := do
  return (← Stmt.resolveAll (f.inner scopes) f.parts).2

/-! ## Execution

The first clause is executed once, and then rounds follow until the condition fails. -/

section
variable (apply : Apply) (limit : Nat) (f : ForLoop)

/-- The value of the condition: true if there is none. -/
def test : Eval Value :=
  match f.condition with
  | some condition => condition.eval apply
  | none => return .bool true

/-- The rounds of the loop.  A body that returns or fails leaves the loop at once, without the
increment. -/
def repeats : (rounds : Nat) → Eval Flow
  | 0 => Eval.exhausted
  | rounds + 1 => do
    if (← f.test apply).isTruthy then
      match ← f.body.exec apply limit with
      | .normal =>
        let _ ← Expr.evalOption apply f.increment
        repeats rounds
      | .returned value line => return .returned value line
    else return .normal

/-- **The execution of the loop**: the initializer once, in a new scope, then the rounds, all of
them in that scope. -/
def exec : Eval Flow :=
  match f.initializer with
  | some initializer => do
    let env := (← get).env
    Eval.inScope env do
      match ← initializer.exec apply limit with
      | .normal => f.repeats apply limit limit
      | .returned value line => return .returned value line
  | none => f.repeats apply limit limit

end

end ForLoop

/-! ## What is read

A loop that was read has clauses that can stand where they do. -/

namespace Parse.Rule.Builds

variable {tokens : List Token}

/-- A variable can be declared by a first clause. -/
theorem variableDeclared_clause (bound : Nat) :
    Rule.Builds tokens (Parse.variableDeclared bound) Stmt.IsClause := by
  have value (found : Option Token) : Rule.Builds tokens
      (found.elim (Pure.pure none) fun _ => some <$> Parse.expression bound) fun _ => True := by
    cases found with
    | none => exact .pure trivial
    | some equal => exact (someExpression bound).mono fun _ _ => trivial
  rw [variableDeclared_eq]
  exact expect.bind fun name _ => accept.bind fun found _ => (value found).bind
    fun initializer _ => expect.bind fun _ _ => .pure (.inl ⟨name, initializer, rfl⟩)

theorem expressionStatement_clause (bound : Nat) :
    Rule.Builds tokens (Parse.expressionStatement bound) Stmt.IsClause :=
  (expression bound).bind fun e _ => expect.bind fun _ _ => .pure (.inr ⟨e, rfl⟩)

theorem forInitializer_clause (bound : Nat) : Rule.Builds tokens (Parse.forInitializer bound)
    fun found => ∀ s ∈ found, s.IsClause := by
  refine accept.bind fun semicolon _ => ?_
  cases semicolon with
  | some semicolon => exact .pure (by simp)
  | none =>
      refine accept.bind fun keyword _ => ?_
      cases keyword with
      | some keyword =>
          exact .map ((variableDeclared_clause bound).mono fun s hs => by simpa using hs)
      | none =>
          exact .map ((expressionStatement_clause bound).mono fun s hs => by simpa using hs)

end Parse.Rule.Builds

/-- **What is read as a `for` loop** is one as the grammar has it. -/
theorem ForLoop.parsed_written {bound bound' : Nat} {c d : Cursor} {f : ForLoop}
    (h : ForLoop.parsed (statement bound) bound' c = .ok f d) : f.Written := by
  obtain ⟨hs, -⟩ := Rule.Builds.statement_declaration bound
  have builds : Rule.Builds c.rest (ForLoop.parsed (statement bound) bound') fun f =>
      (∀ s ∈ f.initializer, s.IsClause) ∧ f.body.declares = false ∧ f.body.Shaped :=
    .bind .expect fun _ _ => .bind (.forInitializer_clause bound') fun initializer hi =>
      .bind (.optionalUpTo bound') fun condition _ => .bind .expect fun _ _ =>
        .bind (.optionalUpTo bound') fun increment _ => .bind .expect fun _ _ =>
          hs.bind fun body hb => .pure ⟨hi, hb.1, hb.2.1⟩
  obtain ⟨⟨clause, nothing, shaped⟩, -⟩ := builds (List.Subset.refl _) h
  have tree : counting (statement bound) bound' c = .ok f.tree d := by
    rw [ForLoop.counting_eq]
    exact map_ok h
  have minted := Rule.Mints.counting (Rule.Mints.statement_declaration bound).1 bound'
    (.nil (Nat.le_refl _)) tree
  exact ⟨clause, nothing, shaped, minted.nodup⟩

end Lox
