import Lox.Proofs.Parse.Containment

/-!
# Statements without their semicolon

Recovery takes the token at which a fault was found away before it looks for a place to go on.  So
where a semicolon is missing, the token that stands in its place is lost, even if it opens the next
statement or closes the block around the faulty one.

The statement is parsed up to the place of its semicolon as its derivation says, by the completeness
of the rules, and the rule that wants the semicolon fails there.  From then on it is recovery that
decides: the token in view is skipped, whatever it is, and then the search for the next statement
begins.

* `Stmt.isSimple`, `Stmt.missed` — the statements that end in a semicolon of their own, and what is
  missed where it is not there.
* `Interrupts` — a token that stands in place of the semicolon.
* `Derives.interrupted` — a simple statement is faulty before such a token, which is still ahead
  then.
* `missing_semicolon` — **the next statement loses its first token, and a block its closing brace**.
-/

namespace Lox

/-- Whether a statement ends in a semicolon of its own. -/
def Stmt.isSimple : Stmt → Bool
  | .expression _ | .print _ | .var _ _ | .ret _ _ => true
  | _ => false

/-- What is missed where a simple statement has no semicolon: the semicolon itself, except that a
return without a value is then taken to have one. -/
def Stmt.missed : Stmt → Expected
  | .print _ => .printEnd
  | .var _ _ => .variableEnd
  | .ret _ (some _) => .returnEnd
  | .ret _ none => .expression
  | _ => .expressionEnd

namespace Parse

open Grammar

variable {α β : Type}

/-! ## Coming to a fault

A rule that fails leaves the tokens that it has not read.  Where the rule is a sequence, it fails
where its second part does. -/

namespace Rule.Leads

variable {rule : Rule Stmt} {x : Rule α} {f : α → Rule β} {fault : SyntaxFault}
variable {ts us : List Token} {i j : NodeId}

/-- What comes after a fault is not read. -/
theorem bind_fail (h : x.Leads ts i (fail fault) us j) :
    Rule.Leads (x >>= f) ts i (fail fault) us j :=
  h.bind_left

/-- A token that has to be there is missed if another one is ahead, which is not taken. -/
theorem expect_fail {kind : Kind} {what : Expected} (h : Lacks [kind] ts) :
    Rule.Leads (Parse.expect kind what) ts i (fail (.expected what)) ts i :=
  (accept_none h).bind .refl

/-- A fault is blamed on the line of the token ahead and recorded, and that token is taken away. -/
theorem recovered (h : rule.Leads ts i (fail fault) us j) (line : Nat) (faults : Array Fault) :
    Parse.recovering rule ⟨ts, line, i, faults⟩ =
      .ok none ⟨afterFault us, line, j,
        faults.push ((Cursor.seen ⟨us, line, j, faults⟩).line, fault)⟩ := by
  simp only [Parse.recovering, h line faults]
  rfl

end Rule.Leads

/-! ## In place of a semicolon

What stands there is a token that continues no expression and begins none. -/

/-- Whether a token neither is a semicolon nor begins or continues an expression. -/
def Interrupts (t : Token) : Prop :=
  beginsExpression t.kind = false ∧
    t.kind ∉ .symbol .semicolon :: .symbol .equal :: continuing levels

/-- A keyword that opens a statement is such a token. -/
theorem interrupts_of_opensStatement {t : Token} (h : opensStatement t.kind = true) :
    Interrupts t := by
  unfold Interrupts
  revert h
  generalize t.kind = kind
  cases kind with
  | keyword k => cases k <;> decide
  | symbol s => cases s <;> decide
  | _ => decide

/-- So is a closing brace. -/
theorem interrupts_of_rightBrace {t : Token} (h : t.kind = .symbol .rightBrace) :
    Interrupts t := by
  unfold Interrupts
  rw [h]
  decide

namespace Interrupts

variable {t : Token} (h : Interrupts t) {rest : List Token}
include h

/-- It is neither a semicolon, an `=` nor a token that an expression goes on with. -/
theorem lacks {kinds : List Kind}
    (hk : kinds ⊆ .symbol .semicolon :: .symbol .equal :: continuing levels) :
    Lacks kinds (t :: rest) :=
  .cons rfl fun hmem => h.2 (hk hmem)

/-- In place of a semicolon it is a fault, whatever would be read behind that. -/
theorem semicolon_fail {f : Token → Rule β} {what : Expected} {i : NodeId} :
    Rule.Leads (expect (.symbol .semicolon) what >>= f) (t :: rest) i (fail (.expected what))
      (t :: rest) i :=
  (Rule.Leads.expect_fail (h.lacks (by simp))).bind_fail

/-- An expression before such a token is read up to it. -/
theorem expression {ts : List Token} {e : Expr} (hd : Derives true .expression ts e)
    (rest : List Token) (i : NodeId) {b : Nat} (hb : (ts ++ t :: rest).length ≤ b) :
    ∃ e' j, Rule.Leads (Parse.expression b) (ts ++ t :: rest) i (pure e') (t :: rest) j := by
  obtain ⟨e', j, -, reads⟩ := complete hd trivial i
  exact ⟨e', j, reads (t :: rest) b hb (h.lacks (List.subset_cons_self _ _))⟩

/-- It is no constant. -/
theorem ofToken?_eq_none : Literal.ofToken? t = none := by
  cases hv : Literal.ofToken? t with
  | none => rfl
  | some value =>
      have begins := h.1
      simp [beginsExpression, beginsCall_of_isConstant (Token.isConstant_iff.2 hv)] at begins

/-- It begins no expression. -/
theorem lacks_operand {kinds : List Kind}
    (hk : ∀ kind ∈ kinds, beginsExpression kind = true) : Lacks kinds (t :: rest) :=
  .cons rfl fun hmem => absurd (hk _ hmem) (by simp [h.1])

/-- No expression is read from such a token on. -/
theorem expression_fail {b : Nat} {i : NodeId} :
    Rule.Leads (Parse.expression (b + 1)) (t :: rest) i (fail (.expected .expression))
      (t :: rest) i := by
  have primary : Rule.Leads (primary (Parse.expression b)) (t :: rest) i
      (fail (.expected .expression)) (t :: rest) i :=
    (Rule.Leads.acceptLiteral_none h.ofToken?_eq_none).bind
      ((Rule.Leads.accept_none (h.lacks_operand (by decide))).bind
        ((Rule.Leads.accept_none (h.lacks_operand (by decide))).bind .refl))
  have operation (ls : List Level) : Rule.Leads (operations (Parse.expression b) (b + 1) ls)
      (t :: rest) i (fail (.expected .expression)) (t :: rest) i := by
    induction ls with
    | nil => exact (Rule.Leads.acceptAny_none (h.lacks_operand (by decide))).bind primary.bind_fail
    | cons l ls ih => exact ih.bind_fail
  exact (operation levels).bind_fail

end Interrupts

end Parse

namespace Grammar

open Parse

variable {ts : List Token} {s : Stmt}

/-- The text of a simple statement without its semicolon is read up to the token in place of that,
and misses the semicolon there. -/
def Interrupted (ts : List Token) (s : Stmt) : Prop :=
  ∀ t rest i b, Interrupts t → (ts ++ t :: rest).length ≤ b + 1 → ∃ j,
    Rule.Leads (declared (statement b) (declaration b) (b + 1)) (ts ++ t :: rest) i
      (fail (.expected s.missed)) (t :: rest) j

/-- A statement behind a keyword is interrupted if the rule for what follows the keyword is. -/
theorem interrupted_of_opening {first : Token} (rule : Nat → Rule Stmt)
    (opens : ∀ b, opening (statement b) (declaration b) (b + 1) first = some (rule (b + 1)))
    (h : ∀ t rest i b, Interrupts t → (ts ++ t :: rest).length ≤ b → ∃ j,
      Rule.Leads (rule b) (ts ++ t :: rest) i (fail (.expected s.missed)) (t :: rest) j) :
    Interrupted (first :: ts) s := by
  intro t rest i b interrupts hb
  simp only [List.cons_append, List.length_cons] at hb ⊢
  obtain ⟨j, leads⟩ := h t rest i (b + 1) interrupts (by omega)
  refine ⟨j, fun line faults => ?_⟩
  rw [declared_cons rfl, opens]
  exact leads line faults

/-- An expression is read up to the token and misses its semicolon there. -/
theorem interrupted_expression {e : Expr} (h : Derives true .expression ts e) :
    Interrupted ts (.expression e) := by
  intro t rest i b interrupts hb
  obtain ⟨e', j, value⟩ := interrupts.expression h rest i hb
  have leads : Rule.Leads (expressionStatement (b + 1)) (ts ++ t :: rest) i
      (fail (.expected .expressionEnd)) (t :: rest) j := value.bind interrupts.semicolon_fail
  refine ⟨j, fun line faults => ?_⟩
  obtain ⟨first, others, rfl⟩ := List.exists_cons_of_ne_nil (h.ne_nil rfl)
  have begins : beginsExpression first.kind = true := h.begins first rfl
  have none : opening (statement b) (declaration b) (b + 1) first = none := by
    simp only [opening]
    revert begins
    cases first.kind with
    | keyword k => cases k <;> simp [beginsExpression, beginsCall]
    | symbol k => cases k <;> simp [beginsExpression, beginsCall]
    | _ => simp
  rw [declared_cons rfl, none]
  exact leads line faults

theorem interrupted_print {keyword : Token} {e : Expr} (hk : keyword.kind = .keyword .print)
    (h : Derives true .expression ts e) : Interrupted (keyword :: ts) (.print e) :=
  interrupted_of_opening printed (fun b => by simp only [opening, hk])
    fun _ rest i _ interrupts hb =>
      let ⟨_, j, value⟩ := interrupts.expression h rest i hb
      ⟨j, value.bind interrupts.semicolon_fail⟩

/-- So is a `return`, whether it has a value or not. -/
theorem interrupted_ret {keyword : Token} {value : Option Expr}
    (hk : keyword.kind = .keyword .return_) (h : Derives true .optional ts value) :
    Interrupted (keyword :: ts) (.ret keyword value) := by
  refine interrupted_of_opening (fun b => returned b keyword)
    (fun b => by simp only [opening, hk]) fun t rest i b interrupts hb => ?_
  rw [returned_eq]
  cases h with
  | absent =>
      obtain ⟨b, rfl⟩ := Nat.exists_eq_add_one.2 (by simp at hb; omega : 0 < b)
      have value : Rule.Leads (optionalUpTo (.symbol .semicolon) (b + 1)) (t :: rest) i
          (fail (.expected .expression)) (t :: rest) i :=
        (Rule.Leads.sees_not (interrupts.lacks (by simp))).bind
          interrupts.expression_fail.bind_fail
      exact ⟨i, value.bind_fail⟩
  | present h =>
      obtain ⟨e', j, read⟩ := interrupts.expression h rest i hb
      have value : Rule.Leads (optionalUpTo (.symbol .semicolon) b) (ts ++ t :: rest) i
          (pure (some e')) (t :: rest) j :=
        (Rule.Leads.sees_not (.of_derives h rfl (by decide))).bind read.map
      exact ⟨j, value.bind interrupts.semicolon_fail⟩

/-- A variable without an initializer misses its semicolon behind the name. -/
theorem interrupted_uninitialized {keyword name : Token} (hk : keyword.kind = .keyword .var)
    (hn : name.kind = .identifier) : Interrupted [keyword, name] (.var name none) := by
  refine interrupted_of_opening variableDeclared (fun b => by simp only [opening, hk])
    fun t rest i b interrupts hb => ⟨i, ?_⟩
  rw [variableDeclared_eq]
  exact (Rule.Leads.expect hn).bind ((Rule.Leads.accept_none (interrupts.lacks (by simp))).bind
    (Rule.Leads.bind (a := none) .refl interrupts.semicolon_fail))

/-- And one with an initializer behind that. -/
theorem interrupted_initialized {keyword name equal : Token} {e : Expr}
    (hk : keyword.kind = .keyword .var) (hn : name.kind = .identifier)
    (heq : equal.kind = .symbol .equal) (h : Derives true .expression ts e) :
    Interrupted (keyword :: name :: equal :: ts) (.var name (some e)) := by
  refine interrupted_of_opening variableDeclared (fun b => by simp only [opening, hk])
    fun t rest i b interrupts hb => ?_
  simp only [List.cons_append, List.length_cons] at hb ⊢
  obtain ⟨e', j, value⟩ := interrupts.expression h rest i (b := b) (by omega)
  refine ⟨j, ?_⟩
  rw [variableDeclared_eq]
  exact (Rule.Leads.expect hn).bind ((Rule.Leads.accept heq).bind
    (value.map.bind interrupts.semicolon_fail))

/-- A simple statement is faulty if a token that ends or continues nothing stands in place of its
semicolon, and what is missed there does not depend on that token. -/
theorem Derives.interrupted {stop : Token} (h : Derives true .declaration (ts ++ [stop]) s)
    (simple : s.isSimple = true) : Interrupted ts s := by
  have cut (us : List Token) {stop' : Token} (same : ts ++ [stop] = us ++ [stop'])
      (h : Interrupted us s) : Interrupted ts s := by
    rwa [(List.append_inj' same rfl).1]
  generalize hus : ts ++ [stop] = us at h
  cases h with
  | cls => cases simple
  | function => cases simple
  | var hk hb => cases hb with
    | uninitialized hn => exact cut [_, _] hus (interrupted_uninitialized hk hn)
    | initialized hn heq he =>
        exact cut (_ :: _ :: _ :: _) hus (interrupted_initialized hk hn heq he)
  | statement hs => cases hs with
    | expression he => exact cut _ hus (interrupted_expression he)
    | print hk he => exact cut _ hus (interrupted_print hk he)
    | ret hk hv => exact cut _ hus (interrupted_ret hk hv)
    | ifOnly => cases simple
    | ifElse => cases simple
    | loop => cases simple
    | @forLoop _ _ _ _ _ _ _ _ initializer _ increment =>
        cases initializer <;> cases increment <;> cases simple
    | block => cases simple

/-- A program of one statement is a text of that. -/
theorem Derives.declaration_of_single {nearest : Bool}
    (h : Derives nearest .declarations ts [s]) : Derives nearest .declaration ts s := by
  cases h with
  | next hs hss =>
      cases hss
      rwa [List.append_nil]

/-- Without its semicolon a statement still has its first token. -/
theorem Derives.begins_without {nearest : Bool} {stop : Token}
    (h : Derives nearest .declaration (ts ++ [stop]) s) (isStop : stop.kind = .symbol .semicolon)
    {kinds : List Kind} (hk : ∀ kind ∈ kinds, Nonterminal.declaration.begins kind = false)
    {us : List Token} : Lacks kinds (ts ++ us) := by
  cases ts with
  | nil =>
      have begins := h.begins stop rfl
      rw [isStop] at begins
      exact absurd begins (by decide)
  | cons t ts => exact .cons rfl fun hmem => absurd (h.begins t rfl) (by simp [hk _ hmem])

/-! ## Where reading goes on

The fault is found at the token, recovery discards it, and goes on in search of a place to read
from. -/

section
variable {ts us : List Token} {s : Stmt} {t : Token} (h : Interrupted ts s)
include h

/-- The fault is recorded, and reading goes on from the token behind the one it was found at. -/
theorem Interrupted.declaration (interrupts : Interrupts t) (line i : Nat) (before : Array Fault)
    {b : Nat} (hb : (ts ++ t :: us).length ≤ b) : ∃ j,
      Parse.declaration b (⟨ts ++ t :: us, line, i, before⟩ : Cursor) =
        .ok none ⟨afterFault (t :: us), line, j, before.push (t.line, .expected s.missed)⟩ := by
  obtain ⟨b, rfl⟩ := Nat.exists_eq_add_one.2 (by simp at hb; omega : 0 < b)
  obtain ⟨j, leads⟩ := h t us i b interrupts hb
  exact ⟨j, leads.recovered line before⟩

/-- Before the declarations that reading goes on with, the statement adds its fault and nothing
else. -/
theorem Interrupted.yields (interrupts : Interrupts t) {line : Nat} {ss : List Stmt}
    {faults : List Fault} (hus : Yields (afterFault (t :: us)) line ss faults) :
    Yields (ts ++ t :: us) line ss ((t.line, .expected s.missed) :: faults) := by
  intro bound rounds i before hbound hrounds
  have few : (afterFault (t :: us)).length ≤ us.length := (nextStatement_suffix t.kind us).length_le
  rw [List.length_append, List.length_cons] at hbound hrounds
  obtain ⟨rounds, rfl⟩ := Nat.exists_eq_add_one.2 (by omega : 0 < rounds)
  have few' : (ts ++ t :: us).length ≤ bound := by
    simp only [List.length_append, List.length_cons]
    omega
  obtain ⟨j, first⟩ := h.declaration interrupts line i before few'
  obtain ⟨ss', d, others, same, recorded⟩ :=
    hus bound rounds j (before.push (t.line, .expected s.missed)) (by omega) (by omega)
  refine ⟨_, d, declarations_cons (by simp) first others, same, ?_⟩
  rw [recorded, Array.toList_push, List.append_assoc]
  rfl

omit h in
/-- Behind the token that is taken away a keyword is found. -/
theorem afterFault_of_opensStatement {k : Token} (opens : opensStatement k.kind = true) :
    afterFault (t :: k :: us) = k :: us :=
  if_pos (.inr opens)

section
variable (begins : Lacks [.symbol .rightBrace] (ts ++ t :: us))
  (isBrace : t.kind = .symbol .rightBrace)
  (opens : ∃ k us', us = k :: us' ∧ opensStatement k.kind = true)
  {ss : List Stmt} (hus : Derives true .declarations us ss)
include begins isBrace opens hus

/-- In a block the brace that should close it is lost.  All declarations behind it are then read as
part of the block, and the brace is missed at the end. -/
theorem Interrupted.block_fail (line i : Nat) (before : Array Fault) {b : Nat}
    (hb : (ts ++ t :: us).length ≤ b) : ∃ j,
      Parse.block (Parse.declaration b) (b + 1) (⟨ts ++ t :: us, line, i, before⟩ : Cursor) =
        .error (line, .expected .blockEnd)
          ⟨[], line, j, before.push (t.line, .expected s.missed)⟩ := by
  obtain ⟨j, first⟩ := h.declaration (interrupts_of_rightBrace isBrace) line i before hb
  obtain ⟨k, us', rfl, opens⟩ := opens
  rw [afterFault_of_opensStatement opens] at first
  simp only [List.length_append, List.length_cons] at hb
  obtain ⟨ss', j', -, reads⟩ := complete hus trivial j
  obtain ⟨left, -, leads⟩ := reads [] b b true (by simp; omega) (by simp; omega) .nil
  have others := leads.trans Rule.Leads.declarations_nil.map
  simp only [List.append_nil] at others
  have members : declarations (Parse.declaration b) true (b + 1)
      (⟨ts ++ t :: k :: us', line, i, before⟩ : Cursor) =
        .ok ss' ⟨[], line, j', before.push (t.line, .expected s.missed)⟩ := by
    have ahead : 0 < (ts ++ t :: k :: us').length := List.length_pos_iff.2 (by simp)
    rw [Rule.Leads.declarations_more ahead begins line before, bind_ok first,
      bind_ok (others line _)]
    rfl
  refine ⟨j', ?_⟩
  rw [Parse.block, bind_ok members]
  exact Rule.Leads.bind_fail (.expect_fail .nil) line _

/-- Such a block is no statement, and nothing behind it is one. -/
theorem Interrupted.yields_block {lbrace : Token} (isOpen : lbrace.kind = .symbol .leftBrace)
    (line : Nat) : Yields (lbrace :: ts ++ t :: us) line []
      [(t.line, .expected s.missed), (line, .expected .blockEnd)] := by
  intro bound rounds i before hbound hrounds
  simp only [List.cons_append, List.length_cons] at hbound hrounds
  obtain ⟨bound, rfl⟩ := Nat.exists_eq_add_one.2 (by omega : 0 < bound)
  obtain ⟨rounds, rfl⟩ := Nat.exists_eq_add_one.2 (by omega : 0 < rounds)
  obtain ⟨j, block⟩ := h.block_fail begins isBrace opens hus line i before (b := bound) (by omega)
  have declared : declared (Parse.statement bound) (Parse.declaration bound) (bound + 1)
      (⟨lbrace :: ts ++ t :: us, line, i, before⟩ : Cursor) = .error (line, .expected .blockEnd)
        ⟨[], line, j, before.push (t.line, .expected s.missed)⟩ := by
    rw [declared_cons rfl]
    simp only [opening, isOpen]
    exact bind_error block
  have recorded : Parse.declaration (bound + 1)
      (⟨lbrace :: ts ++ t :: us, line, i, before⟩ : Cursor) =
        .ok none ⟨[], line, j,
          (before.push (t.line, .expected s.missed)).push (line, .expected .blockEnd)⟩ := by
    simp only [Parse.declaration, declarationOf, recovering, declared]
    rfl
  exact ⟨_, _, declarations_cons (by simp) recorded (declarations_ended rfl), rfl, by simp⟩

end

end

end Grammar

open Parse Grammar

/-! ## Programs

A statement without its semicolon, and another one behind it. -/

section
variable {statement others : List Token} {stop opener eof : Token} {s : Stmt} {first : NodeId}
  (inner : ∀ t ∈ statement, t.kind ≠ .eof) (inner' : ∀ t ∈ others, t.kind ≠ .eof)
  (isStop : stop.kind = .symbol .semicolon) (isEof : eof.kind = .eof)
  (faultless : (parse (statement ++ [stop, eof]) first).faults = [])
  (single : (parse (statement ++ [stop, eof]) first).statements = [s])
  (simple : s.isSimple = true)
  (faultless' : (parse (opener :: others ++ [eof]) first).faults = [])
  (opens : opensStatement opener.kind = true)
include inner inner' isStop isEof faultless single simple faultless' opens

/-- **A missing semicolon costs the token that stands in its place.**  Take a program of one
expression, print, variable or return statement, and another without a fault whose first token
opens a statement.  Without the semicolon between the two there is one fault on the line of that
token, and reading goes on not at it but at the next place behind it where a statement can begin.
If the first statement stands in a block, its closing brace is what is lost: then no statement is
left, and the brace is missed at the end of the program as well. -/
theorem missing_semicolon :
    ((parse (statement ++ opener :: others ++ [eof]) first).faults =
        (opener.line, .expected s.missed) ::
          (parse (afterFault (opener :: others) ++ [eof]) first).faults ∧
      (parse (statement ++ opener :: others ++ [eof]) first).statements.map Stmt.anonymous =
        (parse (afterFault (opener :: others) ++ [eof]) first).statements.map Stmt.anonymous ∧
      afterFault (opener :: others) <:+ others) ∧
    ∀ lbrace rbrace : Token, lbrace.kind = .symbol .leftBrace → rbrace.kind = .symbol .rightBrace →
      (parse (lbrace :: statement ++ rbrace :: opener :: others ++ [eof]) first).statements = [] ∧
      (parse (lbrace :: statement ++ rbrace :: opener :: others ++ [eof]) first).faults =
        [(rbrace.line, .expected s.missed), (eof.line, .expected .blockEnd)] := by
  have behind : afterFault (opener :: others) <:+ others := nextStatement_suffix _ _
  have split : statement ++ [stop, eof] = statement ++ [stop] ++ [eof] := by simp
  have inner'' : ∀ t ∈ statement ++ [stop], t.kind ≠ .eof := by
    simpa [or_imp, forall_and, isStop] using inner
  have opener_inner : opener.kind ≠ .eof := fun h => by rw [h] at opens; cases opens
  rw [split] at faultless single
  have derived := derives_of_parse inner'' isEof first faultless
  rw [single] at derived
  have derived := derived.declaration_of_single
  have interrupted := derived.interrupted simple
  have opened_inner : ∀ t ∈ opener :: others, t.kind ≠ .eof := by
    simpa [opener_inner] using inner'
  have derived' := derives_of_parse opened_inner isEof first faultless'
  refine ⟨?_, fun lbrace rbrace isOpen isClose => ?_⟩
  · have left : ∀ t ∈ afterFault (opener :: others), t.kind ≠ .eof :=
      fun t ht => inner' t (behind.subset ht)
    have yields := interrupted.yields (interrupts_of_opensStatement opens)
      (Yields.of_parse left isEof first)
    have all : ∀ t ∈ statement ++ opener :: others, t.kind ≠ .eof := by
      simpa [or_imp, forall_and, opener_inner] using ⟨inner, inner'⟩
    obtain ⟨statements, faults⟩ := yields.parsed all isEof
    exact ⟨faults, statements, behind⟩
  · have yields := interrupted.yields_block (derived.begins_without isStop (by decide)) isClose
      ⟨opener, others, rfl, opens⟩ derived' isOpen eof.line
    have all : ∀ t ∈ lbrace :: statement ++ rbrace :: opener :: others, t.kind ≠ .eof := by
      simpa [or_imp, forall_and, opener_inner, isOpen, isClose] using ⟨inner, inner'⟩
    obtain ⟨statements, faults⟩ := yields.parsed all isEof
    exact ⟨List.map_eq_nil_iff.1 statements, faults⟩

end

/-- In `print 1 print 2;` the second statement is lost, and in `{ print 1 } print 2;` the block as
well, with a second fault. -/
theorem missing_semicolon_two_prints :
    let print : Token := ⟨.keyword .print, "print", 1, ()⟩
    let one : Token := ⟨.number, "1", 1, (1 : Float)⟩
    let two : Token := ⟨.number, "2", 1, (2 : Float)⟩
    let stop : Token := ⟨.symbol .semicolon, ";", 1, ()⟩
    let lbrace : Token := ⟨.symbol .leftBrace, "\x7b", 1, ()⟩
    let rbrace : Token := ⟨.symbol .rightBrace, "\x7d", 1, ()⟩
    let eof : Token := ⟨.eof, "", 1, ()⟩
    (parse [print, one, stop, eof] 0).faults = [] ∧
      (parse [print, two, stop, eof] 0).faults = [] ∧
      (parse [print, one, print, two, stop, eof] 0).statements = [] ∧
      (parse [print, one, print, two, stop, eof] 0).faults = [(1, .expected .printEnd)] ∧
      (parse [lbrace, print, one, rbrace, print, two, stop, eof] 0).statements = [] ∧
      (parse [lbrace, print, one, rbrace, print, two, stop, eof] 0).faults =
        [(1, .expected .printEnd), (1, .expected .blockEnd)] := by
  intro print one two stop lbrace rbrace eof
  have faultless : (parse [print, one, stop, eof] 0).faults = [] := by
    rw [parse_eq]
    rfl
  have single : (parse [print, one, stop, eof] 0).statements = [.print (.literal (.number 1))] := by
    rw [parse_eq]
    rfl
  have faultless' : (parse [print, two, stop, eof] 0).faults = [] := by
    rw [parse_eq]
    rfl
  have ended : parse [eof] 0 = ⟨[], [], 0⟩ := by
    rw [parse_eq]
    rfl
  have inner : ∀ t ∈ [print, one], t.kind ≠ .eof := by simp [print, one]
  have inner' : ∀ t ∈ [two, stop], t.kind ≠ .eof := by simp [two, stop]
  have isStop : stop.kind = .symbol .semicolon := rfl
  obtain ⟨⟨faults, statements, -⟩, blocks⟩ :=
    missing_semicolon inner inner' isStop rfl faultless single rfl faultless' rfl
  obtain ⟨blockStatements, blockFaults⟩ := blocks lbrace rbrace rfl rfl
  have behind : afterFault [print, two, stop] ++ [eof] = [eof] := rfl
  rw [behind, ended] at faults statements
  exact ⟨faultless, faultless', List.map_eq_nil_iff.1 statements, faults, blockStatements,
    blockFaults⟩

end Lox
