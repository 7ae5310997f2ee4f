import Lox.Proofs.Resolution.Scopes

/-!
# Walks that succeed

A walk is a chain of steps any of which can be refused, so what it returns comes from what each of
its steps returns.  The chains are taken apart here, once for each kind of node, and no proof about
the walk opens them again.

All are equivalences, since the walks of two programs are often compared: from the success of the
one its steps are taken, and the success of the other is put together from theirs.

* `Resolution.inTurn_eq_ok` — the entries of two parts that are walked one after the other.
* `Expr.resolve_binary_eq_ok`, `Stmt.resolve_function_eq_ok`, … — what the walk over a node returns.
* `resolve_eq_ok` — what it returns for a program.
-/

namespace Lox

open Resolution

/-! ## Expressions

Entries of the parts follow each other, and the scopes stay as they are. -/

/-- Two parts, one after the other. -/
theorem Resolution.inTurn_eq_ok {x y : Except Fault (List Entry)} {entries : List Entry} :
    (do let first ← x; return first ++ (← y)) = .ok entries ↔
      ∃ first second, x = .ok first ∧ y = .ok second ∧ entries = first ++ second := by
  constructor
  · intro h
    obtain ⟨first, hx, h⟩ := except_bind_eq_ok.1 h
    obtain ⟨second, hy, h⟩ := except_bind_eq_ok.1 h
    exact ⟨first, second, hx, hy, (except_pure_eq_ok.1 h).symm⟩
  · rintro ⟨first, second, rfl, rfl, rfl⟩
    rfl

namespace Expr

variable {own? : Option String} {scopes : Scopes} {entries : List Entry}

theorem resolve_literal_eq_ok {value : Literal} :
    (literal value).resolve own? scopes = .ok entries ↔ entries = [] :=
  except_pure_eq_ok.trans eq_comm

theorem resolve_binary_eq_ok {left right : Expr} {operator : Token} :
    (binary left operator right).resolve own? scopes = .ok entries ↔
      ∃ first second, left.resolve own? scopes = .ok first ∧
        right.resolve own? scopes = .ok second ∧ entries = first ++ second :=
  inTurn_eq_ok

/-- Left and then right, though the right operand may never be evaluated. -/
theorem resolve_logical_eq_ok {left right : Expr} {operator : Token} :
    (logical left operator right).resolve own? scopes = .ok entries ↔
      ∃ first second, left.resolve own? scopes = .ok first ∧
        right.resolve own? scopes = .ok second ∧ entries = first ++ second :=
  inTurn_eq_ok

/-- A name is read where no initializer of its own is being walked. -/
theorem resolve_read_eq_ok {id : NodeId} {name : Token} :
    (read id name).resolve own? scopes = .ok entries ↔
      scopes.isPending name.lexeme = false ∧ own? ≠ some name.lexeme ∧
        entries = scopes.entry id name.lexeme := by
  unfold Expr.resolve
  split
  next pending =>
    constructor
    · intro h
      cases h
    · rintro ⟨readable, other, -⟩
      simp [readable, other] at pending
  next settled =>
    rw [Bool.or_eq_true, not_or, Bool.not_eq_true, beq_iff_eq] at settled
    constructor
    · exact fun h => ⟨settled.1, settled.2, (except_pure_eq_ok.1 h).symm⟩
    · rintro ⟨-, -, rfl⟩
      rfl

/-- The entry of an assignment comes behind those of its value. -/
theorem resolve_assign_eq_ok {id : NodeId} {name : Token} {value : Expr} :
    (assign id name value).resolve own? scopes = .ok entries ↔
      ∃ first, value.resolve own? scopes = .ok first ∧
        entries = first ++ scopes.entry id name.lexeme := by
  constructor
  · intro h
    obtain ⟨first, hv, h⟩ := except_bind_eq_ok.1 h
    exact ⟨first, hv, (except_pure_eq_ok.1 h).symm⟩
  · rintro ⟨first, hv, rfl⟩
    exact except_bind_eq_ok.2 ⟨first, hv, rfl⟩

/-- What is called, and then the arguments. -/
theorem resolve_call_eq_ok {callee : Expr} {paren : Token} {arguments : List Expr} :
    (call callee paren arguments).resolve own? scopes = .ok entries ↔
      ∃ first second, callee.resolve own? scopes = .ok first ∧
        resolveAll own? scopes arguments = .ok second ∧ entries = first ++ second :=
  inTurn_eq_ok

/-- The value that a field gets is walked before the object. -/
theorem resolve_set_eq_ok {object value : Expr} {name : Token} :
    (set object name value).resolve own? scopes = .ok entries ↔
      ∃ first second, value.resolve own? scopes = .ok first ∧
        object.resolve own? scopes = .ok second ∧ entries = first ++ second :=
  inTurn_eq_ok

theorem resolveAll_nil_eq_ok : resolveAll own? scopes [] = .ok entries ↔ entries = [] :=
  except_pure_eq_ok.trans eq_comm

theorem resolveAll_cons_eq_ok {e : Expr} {es : List Expr} :
    resolveAll own? scopes (e :: es) = .ok entries ↔
      ∃ first others, e.resolve own? scopes = .ok first ∧
        resolveAll own? scopes es = .ok others ∧ entries = first ++ others :=
  inTurn_eq_ok

end Expr

/-! ## Statements

A statement may also declare names, so the scopes after it are part of what it returns. -/

/-- A part that leaves the scopes as they are. -/
theorem Resolution.keeping_eq_ok {x : Except Fault (List Entry)} {scopes after : Scopes}
    {entries : List Entry} :
    (do return (scopes, ← x)) = Except.ok (after, entries) ↔ x = .ok entries ∧ after = scopes := by
  constructor
  · intro h
    obtain ⟨_, hx, h⟩ := except_bind_eq_ok.1 h
    cases except_pure_eq_ok.1 h
    exact ⟨hx, rfl⟩
  · rintro ⟨rfl, rfl⟩
    rfl

/-- A condition, and what it decides on. -/
theorem Resolution.conditioned_eq_ok {x : Except Fault (List Entry)}
    {y : Except Fault (Scopes × List Entry)} {after : Scopes} {entries : List Entry} :
    (do let first ← x; let (scopes, second) ← y; return (scopes, first ++ second)) =
        .ok (after, entries) ↔
      ∃ first second, x = .ok first ∧ y = .ok (after, second) ∧ entries = first ++ second := by
  constructor
  · intro h
    obtain ⟨first, hx, h⟩ := except_bind_eq_ok.1 h
    obtain ⟨⟨_, second⟩, hy, h⟩ := except_bind_eq_ok.1 h
    cases except_pure_eq_ok.1 h
    exact ⟨first, second, hx, hy, rfl⟩
  · rintro ⟨first, second, rfl, rfl, rfl⟩
    rfl

namespace Stmt

variable {scopes after : Scopes} {entries : List Entry}

theorem resolve_expression_eq_ok {e : Expr} :
    (expression e).resolve scopes = .ok (after, entries) ↔
      e.resolve none scopes = .ok entries ∧ after = scopes :=
  keeping_eq_ok

theorem resolve_print_eq_ok {e : Expr} :
    (print e).resolve scopes = .ok (after, entries) ↔
      e.resolve none scopes = .ok entries ∧ after = scopes :=
  keeping_eq_ok

/-- Between the declaration of a variable and its definition the initializer is walked. -/
theorem resolve_var_eq_ok {name : Token} {initializer : Option Expr} :
    (var name initializer).resolve scopes = .ok (after, entries) ↔
      ∃ declared, scopes.declare name = .ok declared ∧
        Expr.resolveOption (if scopes.isEmpty then some name.lexeme else none) declared
          initializer = .ok entries ∧
        after = declared.define name := by
  constructor
  · intro h
    obtain ⟨declared, hd, h⟩ := except_bind_eq_ok.1 h
    obtain ⟨_, hi, h⟩ := except_bind_eq_ok.1 h
    cases except_pure_eq_ok.1 h
    exact ⟨declared, hd, hi, rfl⟩
  · rintro ⟨declared, hd, hi, rfl⟩
    exact except_bind_eq_ok.2 ⟨declared, hd, except_bind_eq_ok.2 ⟨_, hi, rfl⟩⟩

/-- What a block declares is gone after it. -/
theorem resolve_block_eq_ok {body : List Stmt} :
    (block body).resolve scopes = .ok (after, entries) ↔
      (∃ inner, resolveAll scopes.openBlock body = .ok (inner, entries)) ∧ after = scopes := by
  constructor
  · intro h
    obtain ⟨⟨inner, _⟩, hb, h⟩ := except_bind_eq_ok.1 h
    cases except_pure_eq_ok.1 h
    exact ⟨⟨inner, hb⟩, rfl⟩
  · rintro ⟨⟨inner, hb⟩, rfl⟩
    exact except_bind_eq_ok.2 ⟨_, hb, rfl⟩

theorem resolve_ifOnly_eq_ok {condition : Expr} {yes : Stmt} :
    (branch condition yes none).resolve scopes = .ok (after, entries) ↔
      ∃ first second, condition.resolve none scopes = .ok first ∧
        yes.resolve scopes = .ok (after, second) ∧ entries = first ++ second :=
  conditioned_eq_ok

/-- Both branches are walked, one after the other. -/
theorem resolve_ifElse_eq_ok {condition : Expr} {yes no : Stmt} :
    (branch condition yes (some no)).resolve scopes = .ok (after, entries) ↔
      ∃ between first second third, condition.resolve none scopes = .ok first ∧
        yes.resolve scopes = .ok (between, second) ∧
        no.resolve between = .ok (after, third) ∧ entries = first ++ second ++ third := by
  constructor
  · intro h
    obtain ⟨first, hc, h⟩ := except_bind_eq_ok.1 h
    obtain ⟨⟨between, second⟩, hy, h⟩ := except_bind_eq_ok.1 h
    obtain ⟨⟨_, third⟩, hn, h⟩ := except_bind_eq_ok.1 h
    cases except_pure_eq_ok.1 h
    exact ⟨between, first, second, third, hc, hy, hn, rfl⟩
  · rintro ⟨between, first, second, third, hc, hy, hn, rfl⟩
    exact except_bind_eq_ok.2 ⟨_, hc, except_bind_eq_ok.2 ⟨_, hy, except_bind_eq_ok.2 ⟨_, hn, rfl⟩⟩⟩

theorem resolve_loop_eq_ok {condition : Expr} {body : Stmt} :
    (loop condition body).resolve scopes = .ok (after, entries) ↔
      ∃ first second, condition.resolve none scopes = .ok first ∧
        body.resolve scopes = .ok (after, second) ∧ entries = first ++ second :=
  conditioned_eq_ok

/-- A function is introduced before its body is walked, so that it can call itself. -/
theorem resolve_function_eq_ok {name : Token} {parameters : List Token} {body : List Stmt} :
    (function name parameters body).resolve scopes = .ok (after, entries) ↔
      scopes.introduce name = .ok after ∧
        ∃ opened inner, after.openFunction parameters = .ok opened ∧
          resolveAll opened body = .ok (inner, entries) := by
  constructor
  · intro h
    obtain ⟨named, hname, h⟩ := except_bind_eq_ok.1 h
    obtain ⟨opened, ho, h⟩ := except_bind_eq_ok.1 h
    obtain ⟨⟨inner, _⟩, hb, h⟩ := except_bind_eq_ok.1 h
    cases except_pure_eq_ok.1 h
    exact ⟨hname, opened, inner, ho, hb⟩
  · rintro ⟨hname, opened, inner, ho, hb⟩
    exact except_bind_eq_ok.2
      ⟨_, hname, except_bind_eq_ok.2 ⟨_, ho, except_bind_eq_ok.2 ⟨_, hb, rfl⟩⟩⟩

/-- A return is accepted in functions only. -/
theorem resolve_ret_eq_ok {keyword : Token} {value : Option Expr} :
    (ret keyword value).resolve scopes = .ok (after, entries) ↔
      scopes.inFunction = true ∧ Expr.resolveOption none scopes value = .ok entries ∧
        after = scopes := by
  unfold Stmt.resolve
  cases hf : scopes.inFunction with
  | false =>
      constructor
      · intro h
        cases h
      · rintro ⟨inside, -⟩
        cases inside
  | true => exact keeping_eq_ok.trans (and_iff_right rfl).symm

theorem resolve_cls_eq_ok {name : Token} :
    (cls name).resolve scopes = .ok (after, entries) ↔
      scopes.introduce name = .ok after ∧ entries = [] := by
  constructor
  · intro h
    obtain ⟨_, hname, h⟩ := except_bind_eq_ok.1 h
    cases except_pure_eq_ok.1 h
    exact ⟨hname, rfl⟩
  · rintro ⟨hname, rfl⟩
    exact except_bind_eq_ok.2 ⟨_, hname, rfl⟩

theorem resolveAll_nil_eq_ok :
    resolveAll scopes [] = .ok (after, entries) ↔ after = scopes ∧ entries = [] := by
  refine except_pure_eq_ok.trans ?_
  rw [eq_comm, Prod.mk.injEq]

theorem resolveAll_cons_eq_ok {s : Stmt} {ss : List Stmt} :
    resolveAll scopes (s :: ss) = .ok (after, entries) ↔
      ∃ between first others, s.resolve scopes = .ok (between, first) ∧
        resolveAll between ss = .ok (after, others) ∧ entries = first ++ others := by
  constructor
  · intro h
    obtain ⟨⟨between, first⟩, hs, h⟩ := except_bind_eq_ok.1 h
    obtain ⟨⟨_, others⟩, hss, h⟩ := except_bind_eq_ok.1 h
    cases except_pure_eq_ok.1 h
    exact ⟨between, first, others, hs, hss, rfl⟩
  · rintro ⟨between, first, others, hs, hss, rfl⟩
    exact except_bind_eq_ok.2 ⟨_, hs, except_bind_eq_ok.2 ⟨_, hss, rfl⟩⟩

end Stmt

/-! ## Programs

A program is walked with no scope open. -/

/-- What is kept of the walk over a program are its entries. -/
theorem resolve_eq_ok {program : List Stmt} {entries : List Entry} :
    resolve program = .ok entries ↔
      ∃ after, Stmt.resolveAll [] program = .ok (after, entries) := by
  constructor
  · intro h
    obtain ⟨⟨after, _⟩, walk, h⟩ := except_bind_eq_ok.1 h
    cases except_pure_eq_ok.1 h
    exact ⟨after, walk⟩
  · rintro ⟨after, walk⟩
    exact except_bind_eq_ok.2 ⟨_, walk, rfl⟩

end Lox
