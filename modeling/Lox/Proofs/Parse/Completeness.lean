import Lox.Proofs.Parse.Steps
import Lox.Proofs.Parse.Grammar

/-!
# What is derivable is read without a fault

A text of a nonterminal is read to its tree whatever follows it, as long as what follows cannot
continue it.  Identities are given out in order, so the tree read and the next identity depend on
the text and the first identity alone.

The nonterminals that recurse on their left are read by loops.  For them the statement is that
reading the text leaves the loop with the tree so far, at the tokens that follow.

Each form of the grammar is one lemma: from `Complete` of its parts follows `Complete` of the whole.
Its proof steps through the rule with the lemmas about `Rule.Leads`, one for each token and one for
each part, and has to show two things beside that.  The bound is large enough, since every part has
fewer tokens than the whole; and where a rule looks ahead it sees what the grammar puts there, which
is where a lookahead condition of a part is met by the token that follows it.  `complete` puts the
forms together by induction on the derivation.

* `Rule.Leads` — a rule comes to the point where it goes on as another rule.
* `Lacks` — the lookahead conditions.
* `Reads`, `Complete` — the statement for each nonterminal.
* `complete` — all derivable texts are read.
-/

namespace Lox.Parse

open Grammar

variable {α β : Type}

/-! ## Coming to a point

Running a rule is taken apart into stretches.  A stretch says which tokens it takes, which
identities it gives out and which rule is left to run, for any tokens that follow; it does not look
at the line or at the faults so far, and leaves both alone. -/

/-- From the tokens `ts`, with `i` as the next identity, the rule goes on as another one does from
`us` and `j`; no fault is recorded on the way. -/
def Rule.Leads (rule : Rule α) (ts : List Token) (i : NodeId) (rule' : Rule α) (us : List Token)
    (j : NodeId) : Prop :=
  ∀ line faults, rule ⟨ts, line, i, faults⟩ = rule' ⟨us, line, j, faults⟩

/-- None of the kinds is ahead. -/
def Lacks (kinds : List Kind) (ts : List Token) : Prop :=
  ∀ t ∈ ts.head?, t.kind ∉ kinds

namespace Lacks

variable {kinds kinds' : List Kind} {ts us : List Token}

/-- At the end of the input no kind is ahead. -/
theorem nil : Lacks kinds [] := by
  simp [Lacks]

/-- One token decides what is ahead. -/
theorem cons {t : Token} {kind : Kind} (h : t.kind = kind) (hk : kind ∉ kinds) :
    Lacks kinds (t :: ts) := by
  simpa [Lacks, h] using hk

/-- Fewer kinds are easier to do without. -/
theorem mono (h : Lacks kinds' ts) (hk : kinds ⊆ kinds') : Lacks kinds ts :=
  fun t ht hmem => h t ht (hk hmem)

theorem of_append (h : Lacks (kinds ++ kinds') ts) : Lacks kinds ts ∧ Lacks kinds' ts :=
  ⟨h.mono (List.subset_append_left _ _), h.mono (List.subset_append_right _ _)⟩

/-- A text does not begin with what its nonterminal does not begin with. -/
theorem of_derives {nearest : Bool} {n : Nonterminal} {x : n.Tree} (h : Derives nearest n ts x)
    (hn : n.isFilled = true) (hk : ∀ kind ∈ kinds, n.begins kind = false) :
    Lacks kinds (ts ++ us) := by
  intro t ht hmem
  rw [head?_append_of_ne_nil (h.ne_nil hn)] at ht
  exact absurd (h.begins t ht) (by simp [hk _ hmem])

end Lacks

namespace Rule.Leads

variable {rule rule' rule'' : Rule α} {x : Rule α} {f : α → Rule β} {r : Rule β} {a : α}
variable {ts us vs : List Token} {i j k : NodeId}

/-- Nothing has to be done to come to where one is. -/
theorem refl : rule.Leads ts i rule ts i :=
  fun _ _ => rfl

/-- Two stretches, one after the other. -/
theorem trans (h : rule.Leads ts i rule' us j) (h' : rule'.Leads us j rule'' vs k) :
    rule.Leads ts i rule'' vs k :=
  fun line faults => (h line faults).trans (h' line faults)

/-- What a sequence comes to while its first part is under way. -/
theorem bind_left {x' : Rule α} (h : x.Leads ts i x' us j) :
    Rule.Leads (x >>= f) ts i (x' >>= f) us j := by
  intro line faults
  simp only [Bind.bind, EStateM.bind, h line faults]

/-- The first part of a sequence comes to its end, and the rest goes on from there. -/
theorem bind (h : x.Leads ts i (pure a) us j) (h' : Rule.Leads (f a) us j r vs k) :
    Rule.Leads (x >>= f) ts i r vs k :=
  h.bind_left.trans h'

/-- What becomes of a result does not matter on the way to it. -/
theorem map_left {g : α → β} {x' : Rule α} (h : x.Leads ts i x' us j) :
    Rule.Leads (g <$> x) ts i (g <$> x') us j :=
  h.bind_left

/-- The result of a rule, once it has one, is passed on. -/
theorem map {g : α → β} (h : x.Leads ts i (pure a) us j) :
    Rule.Leads (g <$> x) ts i (pure (g a)) us j :=
  h.bind .refl

/-- An identity is the one that was ready, and the next one is ready after it. -/
theorem fresh : Rule.Leads fresh ts i (pure i) ts (i + 1) :=
  fun _ _ => rfl

/-- A token of one of the kinds is taken. -/
theorem acceptAny {t : Token} {kinds : List Kind} (h : t.kind ∈ kinds) :
    Rule.Leads (acceptAny kinds) (t :: ts) i (pure (some t)) ts i := by
  intro line faults
  exact (acceptAny_cons rfl).trans (if_pos h)

/-- What is not ahead is not taken. -/
theorem acceptAny_none {kinds : List Kind} (h : Lacks kinds ts) :
    Rule.Leads (Parse.acceptAny kinds) ts i (pure none) ts i := by
  intro line faults
  cases ts with
  | nil => rfl
  | cons t ts =>
      have hk : t.kind ∉ kinds := h t rfl
      exact (acceptAny_cons rfl).trans (if_neg hk)

theorem accept {t : Token} {kind : Kind} (h : t.kind = kind) :
    Rule.Leads (accept kind) (t :: ts) i (pure (some t)) ts i :=
  acceptAny (by simp [h])

/-- A kind that is not ahead is not taken. -/
theorem accept_none {kind : Kind} (h : Lacks [kind] ts) :
    Rule.Leads (Parse.accept kind) ts i (pure none) ts i :=
  acceptAny_none h

/-- The same without a look at the end of the input. -/
theorem take {t : Token} {kind : Kind} (h : t.kind = kind) :
    Rule.Leads (take kind) (t :: ts) i (pure (some t)) ts i :=
  fun _ _ => if_pos (by simp [Reader.seen, Cursor.seen, h])

/-- The end token aside, a kind that is not ahead is not taken there either. -/
theorem take_none {kind : Kind} (other : kind ≠ .eof) (h : Lacks [kind] ts) :
    Rule.Leads (Parse.take kind) ts i (pure none) ts i := by
  have same : (Parse.take kind : Rule _) = Parse.accept kind :=
    takeAny_eq (by simpa using other.symm)
  rw [same]
  exact accept_none h

/-- The token that has to be there is there. -/
theorem expect {t : Token} {kind : Kind} {what : Expected} (h : t.kind = kind) :
    Rule.Leads (expect kind what) (t :: ts) i (pure t) ts i :=
  (accept h).bind .refl

/-- A constant is taken, with its value. -/
theorem acceptLiteral {t : Token} {value : Literal} (h : Literal.ofToken? t = some value) :
    Rule.Leads acceptLiteral (t :: ts) i (pure (some value)) ts i := by
  intro line faults
  rw [acceptLiteral_cons rfl, h]
  rfl

/-- A token that is no constant is left. -/
theorem acceptLiteral_none {t : Token} (h : Literal.ofToken? t = none) :
    Rule.Leads Parse.acceptLiteral (t :: ts) i (pure none) (t :: ts) i := by
  intro line faults
  rw [acceptLiteral_cons rfl, h]
  rfl

/-- A token of the kind is seen and left. -/
theorem sees {t : Token} {kind : Kind} (h : t.kind = kind) :
    Rule.Leads (sees kind) (t :: ts) i (pure true) (t :: ts) i := by
  intro line faults
  subst h
  simp only [Parse.sees, Reader.atEnd, Reader.seen, Cursor.seen, List.isEmpty_cons, Bool.not_false,
    Bool.true_and, beq_self_eq_true]
  rfl

/-- A kind that is not ahead is not seen. -/
theorem sees_not {kind : Kind} (h : Lacks [kind] ts) :
    Rule.Leads (Parse.sees kind) ts i (pure false) ts i := by
  intro line faults
  cases ts with
  | nil => rfl
  | cons t ts =>
      have hk : (t.kind == kind) = false := by simpa [Lacks] using h
      simp only [Parse.sees, Reader.atEnd, Reader.seen, Cursor.seen, List.isEmpty_cons,
        Bool.not_false, Bool.true_and, hk]
      rfl

/-- There is nothing to recover from. -/
theorem recovering {rule : Rule Stmt} {s : Stmt} (h : rule.Leads ts i (pure s) us j) :
    Rule.Leads (recovering rule) ts i (pure (some s)) us j := by
  intro line faults
  simp only [Parse.recovering, h line faults]
  rfl

section
variable {declaration : Rule (Option Stmt)} {braced : Bool} {rounds : Nat}

/-- While neither the end nor a brace is ahead, there is a declaration more. -/
theorem declarations_more (h : 0 < ts.length) (hb : Lacks [.symbol .rightBrace] ts) :
    Rule.Leads (declarations declaration braced (rounds + 1)) ts i (do
      let first ← declaration
      let others ← declarations declaration braced rounds
      return first.toList ++ others) ts i := by
  intro line faults
  obtain ⟨t, rest, rfl⟩ := List.exists_cons_of_length_pos h
  have inside : ended (⟨t :: rest, line, i, faults⟩ : Cursor) = .ok false _ := rfl
  rw [declarations, bind_ok inside, bind_ok (sees_not hb line faults)]
  simp only [Bool.and_false, Bool.or_false, Bool.false_eq_true, if_false]

/-- At the end of the input there are no more declarations. -/
theorem declarations_nil :
    Rule.Leads (declarations declaration braced rounds) [] i (pure []) [] i := by
  intro line faults
  cases rounds with
  | zero => rfl
  | succ rounds =>
      rw [declarations, bind_ok (by rfl), bind_ok (sees_not .nil line faults)]
      rfl

/-- In a block there are none at its closing brace either. -/
theorem declarations_brace {t : Token} (h : t.kind = .symbol .rightBrace) :
    Rule.Leads (declarations declaration true rounds) (t :: ts) i (pure []) (t :: ts) i := by
  intro line faults
  cases rounds with
  | zero => rfl
  | succ rounds =>
      rw [declarations, bind_ok (by rfl), bind_ok (sees h line faults)]
      rfl

end

end Rule.Leads

/-! ## The statement

Three things stand between a text and its tree: the tokens behind the text must not go on with it,
the bound must last, and the tree that is read has identities of its own.  `Reads` says all of it
for one text and its tree as it is read, with the identities before and behind; `Complete` says it
for the tree of a derivation, up to identities and from any first identity on. -/

/-- The kinds after which an operation of the given levels goes on. -/
def continuing (ls : List Level) : List Kind :=
  ls.flatMap Level.kinds ++ [.symbol .leftParen, .symbol .dot]

/-- Operands with operators of the given levels between them. -/
def operations (expression : Rule Expr) (bound : Nat) : List Level → Rule Expr
  | [] => unary expression bound
  | l :: ls => level l.kinds l.node (operations expression bound ls) bound

/-- What is left of an operation once its first operands have become `e`. -/
def continued (expression : Rule Expr) (bound left : Nat) : List Level → Expr → Rule Expr
  | [], e => pure e
  | l :: ls, e => chain l.kinds l.node (operations expression bound ls) left e

/-- Whatever follows, the text is read from the first identity `i` to the tree, and leaves `j` as
the next identity. -/
def Reads : (n : Nonterminal) → List Token → NodeId → n.Tree → NodeId → Prop
  | .expression, ts, i, e, j => ∀ rest bound, (ts ++ rest).length ≤ bound →
      Lacks (.symbol .equal :: continuing levels) rest →
      Rule.Leads (expression bound) (ts ++ rest) i (pure e) rest j
  | .operation ls, ts, i, e, j => ∀ rest b bound,
      (ts ++ rest).length ≤ b + 1 → (ts ++ rest).length ≤ bound →
      Lacks (continuing ls.tail) rest → ∃ left, rest.length ≤ left ∧
        Rule.Leads (operations (expression b) bound ls) (ts ++ rest) i
          (continued (expression b) bound left ls e) rest j
  | .unary, ts, i, e, j => ∀ rest b bound,
      (ts ++ rest).length ≤ b + 1 → (ts ++ rest).length ≤ bound → Lacks (continuing []) rest →
      Rule.Leads (unary (expression b) bound) (ts ++ rest) i (pure e) rest j
  | .call, ts, i, e, j => ∀ rest b bound,
      (ts ++ rest).length ≤ b + 1 → (ts ++ rest).length ≤ bound → ∃ left, rest.length ≤ left ∧
        Rule.Leads (suffixed (expression b) bound) (ts ++ rest) i
          (suffixes (expression b) left e) rest j
  | .items, ts, i, es, j => ∀ rest b tooMany room, (ts ++ rest).length ≤ b → es.length ≤ room →
      Lacks (.symbol .comma :: .symbol .equal :: continuing levels) rest →
      Rule.Leads (separated tooMany (expression b) room) (ts ++ rest) i (pure es) rest j
  | .arguments, ts, i, es, j => ∀ paren rest b tooMany, paren.kind = .symbol .rightParen →
      (ts ++ paren :: rest).length ≤ b → es.length ≤ 255 →
      Rule.Leads (parenthesized tooMany (expression b)) (ts ++ paren :: rest) i (pure es)
        (paren :: rest) j
  | .primary, ts, i, e, j => ∀ rest b, (ts ++ rest).length ≤ b + 1 →
      Rule.Leads (primary (expression b)) (ts ++ rest) i (pure e) rest j
  | .optional, ts, i, value, j => ∀ stop rest kind bound, stop.kind = kind →
      kind ∈ [Kind.symbol .semicolon, .symbol .rightParen] →
      (ts ++ stop :: rest).length ≤ bound →
      Rule.Leads (optionalUpTo kind bound) (ts ++ stop :: rest) i (pure value) (stop :: rest) j
  | .declarations, ts, i, ss, j => ∀ rest bound rounds braced, (ts ++ rest).length ≤ bound →
      (ts ++ rest).length ≤ rounds → Lacks [.keyword .else_] rest → ∃ left, rest.length ≤ left ∧
        Rule.Leads (declarations (declaration bound) braced rounds) (ts ++ rest) i
          ((ss ++ ·) <$> declarations (declaration bound) braced left) rest j
  | .declaration, ts, i, s, j => ∀ rest bound, (ts ++ rest).length ≤ bound →
      Lacks [.keyword .else_] rest →
      Rule.Leads (declaration bound) (ts ++ rest) i (pure (some s)) rest j
  | .binding, ts, i, s, j => ∀ rest bound, (ts ++ rest).length ≤ bound →
      Rule.Leads (variableDeclared bound) (ts ++ rest) i (pure s) rest j
  | .initializer, ts, i, value, j => ∀ rest bound, (ts ++ rest).length ≤ bound →
      Rule.Leads (forInitializer bound) (ts ++ rest) i (pure value) rest j
  | .names, ts, i, names, j => ∀ rest tooMany what room, names.length ≤ room →
      Lacks [.symbol .comma] rest →
      Rule.Leads (separated tooMany (expect .identifier what) room) (ts ++ rest) i (pure names) rest j
  | .parameters, ts, i, names, j => ∀ paren rest tooMany what,
      paren.kind = .symbol .rightParen → names.length ≤ 255 →
      Rule.Leads (parenthesized tooMany (expect .identifier what)) (ts ++ paren :: rest) i (pure names)
        (paren :: rest) j
  | .statement opened, ts, i, s, j => ∀ rest bound, (ts ++ rest).length ≤ bound →
      (opened = true → Lacks [.keyword .else_] rest) →
      Rule.Leads (statement bound) (ts ++ rest) i (pure s) rest j

/-- No declaration begins with an `else`. -/
theorem Lacks.else_of_derives {us rest : List Token} {ss : List Stmt}
    (hd : Derives true .declarations us ss) (h : Lacks [.keyword .else_] rest) :
    Lacks [.keyword .else_] (us ++ rest) := by
  cases us with
  | nil => exact h
  | cons t us =>
      have begins := hd.begins t rfl
      refine .cons rfl fun hk => ?_
      rw [List.mem_singleton.1 hk] at begins
      exact absurd begins (by decide)

/-- A closing brace ends the declarations of a block. -/
theorem Reads.braced {ts rest : List Token} {ss : List Stmt} {i j : NodeId} {bound rounds : Nat}
    {rbrace : Token} (h : Reads .declarations ts i ss j)
    (hk : rbrace.kind = .symbol .rightBrace) (hb : (ts ++ rbrace :: rest).length ≤ bound)
    (hr : (ts ++ rbrace :: rest).length ≤ rounds) :
    Rule.Leads (block (declaration bound) rounds) (ts ++ rbrace :: rest) i (pure ss) rest j := by
  obtain ⟨left, -, leads⟩ := h (rbrace :: rest) bound rounds true hb hr (.cons hk (by decide))
  have body := leads.trans (Rule.Leads.declarations_brace hk).map
  simp only [List.append_nil] at body
  exact body.bind ((Rule.Leads.expect hk).bind .refl)

/-- Declarations that follow each other are read one after the other. -/
theorem Reads.append {ts us : List Token} {ss ss' : List Stmt} {i j k : NodeId}
    (h : Reads .declarations ts i ss j) (hd : Derives true .declarations us ss')
    (h' : Reads .declarations us j ss' k) : Reads .declarations (ts ++ us) i (ss ++ ss') k := by
  intro rest bound rounds braced hb hrounds noElse
  rw [List.append_assoc] at hb hrounds ⊢
  obtain ⟨room, hroom, leads⟩ := h (us ++ rest) bound rounds braced hb hrounds (.else_of_derives hd noElse)
  rw [List.length_append] at hb
  obtain ⟨left, hleft, leads'⟩ := h' rest bound room braced (by omega) hroom noElse
  have leads' := leads'.map_left (g := (ss ++ ·))
  simp only [Functor.map_map] at leads'
  simp only [List.append_assoc]
  exact ⟨left, hleft, leads.trans leads'⟩

/-- From any first identity the text is read to a tree that is the given one up to identities. -/
def Complete (n : Nonterminal) (ts : List Token) (x : n.Tree) : Prop :=
  ∀ i, ∃ x' j, n.anonymous x' = n.anonymous x ∧ Reads n ts i x' j

/-! ## Operators

A level is read by a loop that puts every operand it comes to on the right of the tree so far, so a
tree that leans to the left is not built from its parts in the order of the derivation.  The
statement for an operation is therefore about the loop, and the case of an operator hands the tree
on its left over to the next round. -/

section
variable {expression : Rule Expr} {b bound left : Nat} {i : NodeId} {rest : List Token}

/-- A loop over operators ends where none of its level is ahead. -/
theorem continued_stop {ls : List Level} {e : Expr} (h : Lacks (continuing ls) rest) :
    Rule.Leads (continued expression bound left ls e) rest i (pure e) rest i := by
  cases ls with
  | nil => exact .refl
  | cons l ls =>
      cases left with
      | zero => exact .refl
      | succ left =>
          have hl : Lacks l.kinds rest := by
            simp only [continuing, List.flatMap_cons, List.append_assoc] at h
            exact h.of_append.1
          exact (Rule.Leads.acceptAny_none hl).bind .refl

/-- The loop over calls and properties ends where neither is ahead. -/
theorem suffixes_stop {e : Expr} (h : Lacks (continuing []) rest) :
    Rule.Leads (suffixes expression left e) rest i (pure e) rest i := by
  cases left with
  | zero => exact .refl
  | succ left =>
      refine (Rule.Leads.accept_none (h.mono ?_)).bind ((Rule.Leads.accept_none (h.mono ?_)).bind .refl)
      all_goals simp [continuing]

end

/-- The operators of tighter levels are among those of looser ones. -/
theorem continuing_tail {l : Level} {ls : List Level} : continuing ls ⊆ continuing (l :: ls) := by
  simp [continuing]

/-- No operator belongs to two levels. -/
theorem levels_apart {l : Level} {ls : List Level} (h : l :: ls <:+ levels) :
    ∀ kind ∈ l.kinds, kind ∉ continuing ls := by
  simp only [levels, List.suffix_cons_iff, List.suffix_nil, List.cons.injEq, reduceCtorEq,
    or_false] at h
  rcases h with ⟨rfl, rfl⟩ | ⟨rfl, rfl⟩ | ⟨rfl, rfl⟩ | ⟨rfl, rfl⟩ | ⟨rfl, rfl⟩ | ⟨rfl, rfl⟩
  all_goals decide

/-- The node of an operator loses the identities of its parts and has none of its own. -/
theorem anonymous_node {l : Level} (h : l ∈ levels) (left right : Expr) (operator : Token) :
    (l.node left operator right).anonymous =
      l.node left.anonymous operator right.anonymous := by
  simp only [levels, List.mem_cons, List.not_mem_nil, or_false] at h
  rcases h with rfl | rfl | rfl | rfl | rfl | rfl
  all_goals rfl

/-- Where no operator of the levels is ahead, all of the operation is read. -/
theorem Reads.operation_done {ls : List Level} {ts rest : List Token} {e : Expr}
    {i j b bound : Nat} (h : Reads (.operation ls) ts i e j)
    (hb : (ts ++ rest).length ≤ b + 1) (hbound : (ts ++ rest).length ≤ bound)
    (lacks : Lacks (continuing ls) rest) :
    Rule.Leads (operations (expression b) bound ls) (ts ++ rest) i (pure e) rest j := by
  have lacks' : Lacks (continuing ls.tail) rest := by
    cases ls with
    | nil => exact lacks
    | cons l ls => exact lacks.mono continuing_tail
  obtain ⟨left, -, leads⟩ := h rest b bound hb hbound lacks'
  exact leads.trans (continued_stop lacks)

namespace Complete

/-- An operation of a tighter level is the first operand of a loop. -/
theorem operand {l : Level} {ls : List Level} {ts : List Token} {e : Expr}
    (h : Complete (.operation ls) ts e) : Complete (.operation (l :: ls)) ts e := by
  intro i
  obtain ⟨e', j, same, reads⟩ := h i
  refine ⟨e', j, same, fun rest b bound hb hbound lacks => ?_⟩
  have short : rest.length ≤ bound := by
    rw [List.length_append] at hbound
    omega
  exact ⟨bound, short, (reads.operation_done hb hbound lacks).bind .refl⟩

/-- An operator and the operand on its right are one round of the loop.  The operator is not one of
a tighter level, or the loops inside would have taken it. -/
theorem infixed {l : Level} {ls : List Level} {operator : Token} {ts us : List Token}
    {left right : Expr} (hl : Complete (.operation (l :: ls)) ts left)
    (hk : operator.kind ∈ l.kinds) (hr : Complete (.operation ls) us right)
    (hmem : l :: ls <:+ levels) :
    Complete (.operation (l :: ls)) (ts ++ operator :: us) (l.node left operator right) := by
  intro i
  obtain ⟨left', j, sameLeft, readsLeft⟩ := hl i
  obtain ⟨right', k, sameRight, readsRight⟩ := hr j
  refine ⟨l.node left' operator right', k, ?_, fun rest b bound hb hbound lacks => ?_⟩
  · have hmem := hmem.subset List.mem_cons_self
    have sameLeft : left'.anonymous = left.anonymous := sameLeft
    have sameRight : right'.anonymous = right.anonymous := sameRight
    simp only [Nonterminal.anonymous, anonymous_node hmem, sameLeft, sameRight]
  simp only [List.append_assoc, List.cons_append] at hb hbound ⊢
  obtain ⟨room, hroom, leads⟩ :=
    readsLeft (operator :: (us ++ rest)) b bound hb hbound (.cons rfl (levels_apart hmem _ hk))
  obtain ⟨room, rfl⟩ := Nat.exists_eq_add_one.2 (by simp at hroom; omega : 0 < room)
  simp only [List.length_append, List.length_cons] at hb hbound hroom
  have operand : Rule.Leads (operations (expression b) bound ls) (us ++ rest) j (pure right') rest k :=
    readsRight.operation_done (by simp; omega) (by simp; omega) lacks
  exact ⟨room, by omega, leads.trans ((Rule.Leads.acceptAny hk).bind (operand.bind .refl))⟩

/-- With no level left, an operand is what an operator can stand before. -/
theorem tightest {ts : List Token} {e : Expr} (h : Complete .unary ts e) :
    Complete (.operation []) ts e := by
  intro i
  obtain ⟨e', j, same, reads⟩ := h i
  refine ⟨e', j, same, fun rest b bound hb hbound lacks => ⟨rest.length, Nat.le_refl _, ?_⟩⟩
  exact reads rest b bound hb hbound lacks

/-- An operator before its operand. -/
theorem unary {operator : Token} {ts : List Token} {operand : Expr}
    (hk : operator.kind ∈ [Kind.symbol .bang, Kind.symbol .minus])
    (h : Complete .unary ts operand) :
    Complete .unary (operator :: ts) (.unary operator operand) := by
  intro i
  obtain ⟨operand', j, same, reads⟩ := h i
  refine ⟨.unary operator operand', j, ?_, fun rest b bound hb hbound lacks => ?_⟩
  · exact congrArg (Expr.unary operator) same
  · simp only [List.cons_append, List.length_cons] at hb hbound ⊢
    obtain ⟨bound, rfl⟩ := Nat.exists_eq_add_one.2 (by omega : 0 < bound)
    have leads := reads rest b bound (by omega) (by omega) lacks
    exact (Rule.Leads.acceptAny hk).bind (leads.bind .refl)

/-- Without such an operator the rule for calls reads the text, since no call begins with one. -/
theorem suffixed {ts : List Token} {e : Expr} (hd : Derives true .call ts e)
    (h : Complete .call ts e) : Complete .unary ts e := by
  intro i
  obtain ⟨e', j, same, reads⟩ := h i
  refine ⟨e', j, same, fun rest b bound hb hbound lacks => ?_⟩
  obtain ⟨left, -, leads⟩ := reads rest b bound hb hbound
  have leads := leads.trans (suffixes_stop lacks)
  cases bound with
  | zero => exact leads
  | succ bound => exact (Rule.Leads.acceptAny_none (.of_derives hd rfl (by decide))).bind leads

/-! ## Calls and properties

Calls and properties lean to the left too, and one loop reads both.  The statement for a call is
that the loop is left with the tree so far. -/

/-- What is called first is where the loop begins. -/
theorem primary {ts : List Token} {e : Expr} (h : Complete .primary ts e) :
    Complete .call ts e := by
  intro i
  obtain ⟨e', j, same, reads⟩ := h i
  refine ⟨e', j, same, fun rest b bound hb hbound => ?_⟩
  have short : rest.length ≤ bound := by
    rw [List.length_append] at hbound
    omega
  exact ⟨bound, short, (reads rest b hb).bind .refl⟩

/-- Arguments in parentheses are one round of the loop, and there are no more than the parser has
room for. -/
theorem call {lparen rparen : Token} {ts us : List Token} {callee : Expr} {arguments : List Expr}
    (hc : Complete .call ts callee) (hl : lparen.kind = .symbol .leftParen)
    (ha : Complete .arguments us arguments) (hlen : arguments.length ≤ 255)
    (hr : rparen.kind = .symbol .rightParen) :
    Complete .call (ts ++ lparen :: us ++ [rparen]) (.call callee rparen arguments) := by
  intro i
  obtain ⟨callee', j, sameCallee, readsCallee⟩ := hc i
  obtain ⟨arguments', k, sameArguments, readsArguments⟩ := ha j
  have sameCallee : callee'.anonymous = callee.anonymous := sameCallee
  have sameArguments : arguments'.map Expr.anonymous = arguments.map Expr.anonymous :=
    sameArguments
  have hlen' : arguments'.length ≤ 255 := by
    have h := congrArg List.length sameArguments
    simp only [List.length_map] at h
    omega
  refine ⟨.call callee' rparen arguments', k, ?_, fun rest b bound hb hbound => ?_⟩
  · simp only [Nonterminal.anonymous, Expr.anonymous_call, sameCallee, sameArguments]
  · simp only [List.append_assoc, List.cons_append, List.nil_append] at hb hbound ⊢
    obtain ⟨room, hroom, leads⟩ := readsCallee (lparen :: (us ++ rparen :: rest)) b bound hb hbound
    obtain ⟨room, rfl⟩ := Nat.exists_eq_add_one.2 (by simp at hroom; omega : 0 < room)
    simp only [List.length_append, List.length_cons] at hb hbound hroom
    have arguments :=
      readsArguments rparen rest b .tooManyArguments hr (by simp; omega) hlen'
    exact ⟨room, by omega,
      leads.trans ((Rule.Leads.accept hl).bind (arguments.bind ((Rule.Leads.expect hr).bind .refl)))⟩

/-- A name after a dot is one round of the loop. -/
theorem get {dot name : Token} {ts : List Token} {object : Expr} (h : Complete .call ts object)
    (hd : dot.kind = .symbol .dot) (hn : name.kind = .identifier) :
    Complete .call (ts ++ [dot, name]) (.get object name) := by
  intro i
  obtain ⟨object', j, same, reads⟩ := h i
  refine ⟨.get object' name, j, congrArg (Expr.get · name) same, fun rest b bound hb hbound => ?_⟩
  simp only [List.append_assoc, List.cons_append, List.nil_append] at hb hbound ⊢
  obtain ⟨room, hroom, leads⟩ := reads (dot :: name :: rest) b bound hb hbound
  obtain ⟨room, rfl⟩ := Nat.exists_eq_add_one.2 (by simp at hroom; omega : 0 < room)
  simp only [List.length_cons] at hroom
  refine ⟨room, by omega, leads.trans ?_⟩
  exact (Rule.Leads.accept_none (.cons hd (by decide))).bind
    ((Rule.Leads.accept hd).bind ((Rule.Leads.expect hn).bind .refl))

/-- A closing parenthesis at once. -/
theorem noArguments : Complete .arguments [] [] := by
  intro i
  refine ⟨[], i, rfl, fun paren rest b tooMany hp _ _ => ?_⟩
  exact (Rule.Leads.sees hp).bind .refl

/-- There is at least one argument, and it does not begin with a closing parenthesis. -/
theorem someArguments {ts : List Token} {es : List Expr} (hd : Derives true .items ts es)
    (h : Complete .items ts es) : Complete .arguments ts es := by
  intro i
  obtain ⟨es', j, same, reads⟩ := h i
  refine ⟨es', j, same, fun paren rest b tooMany hp hb hlen => ?_⟩
  have items := reads (paren :: rest) b tooMany maxArity hb hlen (.cons hp (by decide))
  exact (Rule.Leads.sees_not (.of_derives hd rfl (by decide))).bind items

/-- The last expression has no comma behind it. -/
theorem lastItem {ts : List Token} {e : Expr} (h : Complete .expression ts e) :
    Complete .items ts [e] := by
  intro i
  obtain ⟨e', j, same, reads⟩ := h i
  refine ⟨[e'], j, congrArg (fun e => [e]) same, fun rest b tooMany room hb hroom lacks => ?_⟩
  obtain ⟨room, rfl⟩ := Nat.exists_eq_add_one.2 (by simp at hroom; omega : 0 < room)
  have item := reads rest b hb (lacks.mono (List.subset_cons_self _ _))
  exact item.bind ((Rule.Leads.accept_none (lacks.mono (by simp))).bind .refl)

/-- Any other has one, and the list goes on. -/
theorem nextItem {comma : Token} {ts us : List Token} {e : Expr} {es : List Expr}
    (he : Complete .expression ts e) (hk : comma.kind = .symbol .comma)
    (hes : Complete .items us es) : Complete .items (ts ++ comma :: us) (e :: es) := by
  intro i
  obtain ⟨e', j, sameFirst, readsFirst⟩ := he i
  obtain ⟨es', k, sameOthers, readsOthers⟩ := hes j
  refine ⟨e' :: es', k, List.cons_eq_cons.2 ⟨sameFirst, sameOthers⟩,
    fun rest b tooMany room hb hroom lacks => ?_⟩
  simp only [List.append_assoc, List.cons_append, List.length_cons] at hb hroom ⊢
  obtain ⟨room, rfl⟩ := Nat.exists_eq_add_one.2 (by omega : 0 < room)
  have first := readsFirst (comma :: (us ++ rest)) b hb (.cons hk (by decide))
  simp only [List.length_append, List.length_cons] at hb
  have others := readsOthers rest b tooMany room (by simp; omega) (by omega) lacks
  exact first.bind ((Rule.Leads.accept hk).bind (others.bind .refl))

/-! ## Primary expressions

What a primary expression is, its first token says. -/

/-- A constant is read to its value. -/
theorem literal {t : Token} {value : Literal} (h : t.IsConstant value) :
    Complete .primary [t] (.literal value) :=
  fun i => ⟨.literal value, i, rfl,
    fun _ _ _ => (Rule.Leads.acceptLiteral (Token.isConstant_iff.1 h)).bind .refl⟩

/-- A name or an opening parenthesis is no constant. -/
theorem ofToken?_eq_none {t : Token} (h : t.kind = .identifier ∨ t.kind = .symbol .leftParen) :
    Literal.ofToken? t = none := by
  obtain ⟨kind, lexeme, line, payload⟩ := t
  rcases h with rfl | rfl
  all_goals rfl

/-- A name is read to an access with the identity that is ready. -/
theorem read {name : Token} {id : NodeId} (h : name.kind = .identifier) :
    Complete .primary [name] (.read id name) := by
  intro i
  refine ⟨.read i name, i + 1, rfl, fun rest b _ => ?_⟩
  exact (Rule.Leads.acceptLiteral_none (ofToken?_eq_none (.inl h))).bind
    ((Rule.Leads.accept h).bind (Rule.Leads.fresh.bind .refl))

theorem group {lparen rparen : Token} {ts : List Token} {inner : Expr}
    (hl : lparen.kind = .symbol .leftParen) (h : Complete .expression ts inner)
    (hr : rparen.kind = .symbol .rightParen) :
    Complete .primary (lparen :: ts ++ [rparen]) (.group inner) := by
  intro i
  obtain ⟨inner', j, same, reads⟩ := h i
  refine ⟨.group inner', j, congrArg Expr.group same, fun rest b hb => ?_⟩
  simp only [List.append_assoc, List.cons_append, List.nil_append, List.length_cons] at hb ⊢
  have inner := reads (rparen :: rest) b (by omega) (.cons hr (by decide))
  exact (Rule.Leads.acceptLiteral_none (ofToken?_eq_none (.inr hl))).bind
    ((Rule.Leads.accept_none (.cons hl (by decide))).bind
      ((Rule.Leads.accept hl).bind (inner.bind ((Rule.Leads.expect hr).bind .refl))))

/-! ## Assignments

The parser reads what stands on the left of `=` as an operation and looks at the tree afterwards.
So a target has to be read as an operation first, and nothing else that can be read there is
followed by `=`. -/

/-- What is called or read can be an operation of all levels. -/
theorem operation_of_call {ts : List Token} {e : Expr} (hd : Derives true .call ts e)
    (h : Complete .call ts e) : Complete (.operation levels) ts e :=
  .operand (.operand (.operand (.operand (.operand (.operand (.tightest (.suffixed hd h)))))))

/-- What is not followed by `=` is left as it was read. -/
theorem operation {ts : List Token} {e : Expr} (hd : Derives true (.operation levels) ts e)
    (h : Complete (.operation levels) ts e) : Complete .expression ts e := by
  intro i
  obtain ⟨e', j, same, reads⟩ := h i
  refine ⟨e', j, same, fun rest bound hb lacks => ?_⟩
  have filled := List.length_pos_iff.2 (hd.ne_nil rfl)
  obtain ⟨b, rfl⟩ := Nat.exists_eq_add_one.2 (by simp at hb; omega : 0 < bound)
  have target := reads.operation_done hb hb (lacks.mono (List.subset_cons_self _ _))
  exact target.bind ((Rule.Leads.accept_none (lacks.mono (by simp))).bind .refl)

/-- A name is an operation that is followed by `=`; the access that was read for it is replaced by
the assignment, which has its identity. -/
theorem assign {name equal : Token} {ts : List Token} {id : NodeId} {value : Expr}
    (hn : name.kind = .identifier) (heq : equal.kind = .symbol .equal)
    (h : Complete .expression ts value) :
    Complete .expression (name :: equal :: ts) (.assign id name value) := by
  intro i
  have target : Complete (.operation levels) [name] (.read id name) :=
    operation_of_call (.primary (.read hn)) (.primary (.read hn))
  obtain ⟨target', j, sameTarget, readsTarget⟩ := target i
  obtain ⟨value', k, sameValue, readsValue⟩ := h j
  obtain ⟨id', rfl⟩ : ∃ id', target' = .read id' name := by
    have sameTarget : target'.anonymous = .read 0 name := sameTarget
    cases target' <;> simp_all
  refine ⟨.assign k name value', k + 1, congrArg (Expr.assign 0 name) sameValue,
    fun rest bound hb lacks => ?_⟩
  simp only [List.cons_append, List.length_cons] at hb ⊢
  obtain ⟨b, rfl⟩ := Nat.exists_eq_add_one.2 (by omega : 0 < bound)
  have target : Rule.Leads (operations (expression b) (b + 1) levels) (name :: equal :: (ts ++ rest)) i
      (pure (.read id' name)) (equal :: (ts ++ rest)) j :=
    readsTarget.operation_done hb hb (.cons heq (by decide))
  have value := readsValue rest b (by omega) lacks
  exact target.bind ((Rule.Leads.accept heq).bind (value.bind (Rule.Leads.fresh.bind .refl)))

/-- So is a property, and the value belongs to its object. -/
theorem set {dot name equal : Token} {ts us : List Token} {object value : Expr}
    (hdo : Derives true .call ts object) (ho : Complete .call ts object)
    (hd : dot.kind = .symbol .dot) (hn : name.kind = .identifier)
    (heq : equal.kind = .symbol .equal) (hv : Complete .expression us value) :
    Complete .expression (ts ++ dot :: name :: equal :: us) (.set object name value) := by
  intro i
  have target : Complete (.operation levels) (ts ++ [dot, name]) (.get object name) :=
    operation_of_call (.get hdo hd hn) (.get ho hd hn)
  obtain ⟨target', j, sameTarget, readsTarget⟩ := target i
  obtain ⟨value', k, sameValue, readsValue⟩ := hv j
  obtain ⟨object', rfl, sameObject⟩ :
      ∃ object', target' = .get object' name ∧ object'.anonymous = object.anonymous := by
    have sameTarget : target'.anonymous = .get object.anonymous name := sameTarget
    cases target' <;> simp_all
  have sameValue : value'.anonymous = value.anonymous := sameValue
  refine ⟨.set object' name value', k, ?_, fun rest bound hb lacks => ?_⟩
  · simp only [Nonterminal.anonymous, Expr.anonymous_set, sameObject, sameValue]
  · simp only [List.append_assoc, List.cons_append, List.length_append, List.length_cons] at hb ⊢
    obtain ⟨b, rfl⟩ := Nat.exists_eq_add_one.2 (by omega : 0 < bound)
    have target : Rule.Leads (operations (expression b) (b + 1) levels)
        (ts ++ [dot, name] ++ equal :: (us ++ rest)) i (pure (.get object' name))
        (equal :: (us ++ rest)) j :=
      readsTarget.operation_done (by simp; omega) (by simp; omega) (.cons heq (by decide))
    rw [List.append_assoc] at target
    have value := readsValue rest b (by simp; omega) lacks
    exact target.bind ((Rule.Leads.accept heq).bind (value.bind .refl))

/-! ## Parts of statements

Clauses that may be missing are recognized by the token that ends them, which no expression begins
with. -/

/-- The token that ends the clause is ahead. -/
theorem absent : Complete .optional [] none := by
  intro i
  refine ⟨none, i, rfl, fun stop rest kind bound hk _ _ => ?_⟩
  exact (Rule.Leads.sees hk).bind .refl

/-- It is not, since an expression begins there. -/
theorem present {ts : List Token} {e : Expr} (hd : Derives true .expression ts e)
    (h : Complete .expression ts e) : Complete .optional ts (some e) := by
  intro i
  obtain ⟨e', j, same, reads⟩ := h i
  refine ⟨some e', j, congrArg some same, fun stop rest kind bound hk hmem hb => ?_⟩
  have lacks : Lacks [kind] (ts ++ stop :: rest) ∧
      Lacks (.symbol .equal :: continuing levels) (stop :: rest) := by
    simp only [List.mem_cons, List.not_mem_nil, or_false] at hmem
    rcases hmem with rfl | rfl
    all_goals exact ⟨.of_derives hd rfl (by decide), .cons hk (by decide)⟩
  have value := reads (stop :: rest) bound hb lacks.2
  exact (Rule.Leads.sees_not lacks.1).bind value.map

theorem uninitialized {name semicolon : Token} (hn : name.kind = .identifier)
    (hs : semicolon.kind = .symbol .semicolon) :
    Complete .binding [name, semicolon] (.var name none) := by
  intro i
  refine ⟨.var name none, i, rfl, fun rest bound _ => ?_⟩
  rw [variableDeclared_eq]
  exact (Rule.Leads.expect hn).bind ((Rule.Leads.accept_none (.cons hs (by decide))).bind
    (Rule.Leads.bind .refl ((Rule.Leads.expect hs).bind .refl)))

theorem initialized {name equal semicolon : Token} {ts : List Token} {e : Expr}
    (hn : name.kind = .identifier) (heq : equal.kind = .symbol .equal)
    (h : Complete .expression ts e) (hs : semicolon.kind = .symbol .semicolon) :
    Complete .binding (name :: equal :: ts ++ [semicolon]) (.var name (some e)) := by
  intro i
  obtain ⟨e', j, same, reads⟩ := h i
  refine ⟨.var name (some e'), j, congrArg (fun e => Stmt.var name (some e)) same,
    fun rest bound hb => ?_⟩
  simp only [List.append_assoc, List.cons_append, List.nil_append, List.length_cons] at hb ⊢
  have value := reads (semicolon :: rest) bound (by omega) (.cons hs (by decide))
  rw [variableDeclared_eq]
  exact (Rule.Leads.expect hn).bind ((Rule.Leads.accept heq).bind
    (value.map.bind ((Rule.Leads.expect hs).bind .refl)))

/-- The last name has no comma behind it. -/
theorem lastName {name : Token} (hn : name.kind = .identifier) :
    Complete .names [name] [name] := by
  intro i
  refine ⟨[name], i, rfl, fun rest tooMany what room hroom lacks => ?_⟩
  obtain ⟨room, rfl⟩ := Nat.exists_eq_add_one.2 (by simp at hroom; omega : 0 < room)
  exact (Rule.Leads.expect hn).bind ((Rule.Leads.accept_none lacks).bind .refl)

/-- Any other has one, and the list goes on. -/
theorem nextName {name comma : Token} {ts names : List Token} (hn : name.kind = .identifier)
    (hk : comma.kind = .symbol .comma) (h : Complete .names ts names) :
    Complete .names (name :: comma :: ts) (name :: names) := by
  intro i
  obtain ⟨names', j, rfl, reads⟩ := h i
  refine ⟨name :: names', j, rfl, fun rest tooMany what room hroom lacks => ?_⟩
  obtain ⟨room, rfl⟩ := Nat.exists_eq_add_one.2 (by simp at hroom; omega : 0 < room)
  have others := reads rest tooMany what room (by simpa using hroom) lacks
  exact (Rule.Leads.expect hn).bind ((Rule.Leads.accept hk).bind (others.bind .refl))

/-- A closing parenthesis at once. -/
theorem noParameters : Complete .parameters [] [] := by
  intro i
  refine ⟨[], i, rfl, fun paren rest tooMany what hp _ => ?_⟩
  exact (Rule.Leads.sees hp).bind .refl

/-- A list of names begins with one. -/
theorem names_begin {ts names : List Token} (h : Derives true .names ts names) :
    ∃ t us, ts = t :: us ∧ t.kind = .identifier := by
  cases h with
  | lastName hn => exact ⟨_, _, rfl, hn⟩
  | nextName hn => exact ⟨_, _, rfl, hn⟩

/-- There is at least one name, and it is no closing parenthesis. -/
theorem someParameters {ts names : List Token} (hd : Derives true .names ts names)
    (h : Complete .names ts names) : Complete .parameters ts names := by
  intro i
  obtain ⟨names', j, rfl, reads⟩ := h i
  refine ⟨names', j, rfl, fun paren rest tooMany what hp hlen => ?_⟩
  obtain ⟨t, us, rfl, ht⟩ := names_begin hd
  have names := reads (paren :: rest) tooMany what maxArity hlen (.cons hp (by decide))
  exact (Rule.Leads.sees_not (.cons ht (by decide))).bind names

theorem noInitializer {semicolon : Token} (hs : semicolon.kind = .symbol .semicolon) :
    Complete .initializer [semicolon] none :=
  fun i => ⟨none, i, rfl, fun _ _ _ => (Rule.Leads.accept hs).bind .refl⟩

/-- A declaration of a variable, its semicolon included. -/
theorem varInitializer {keyword : Token} {ts : List Token} {s : Stmt}
    (hk : keyword.kind = .keyword .var) (h : Complete .binding ts s) :
    Complete .initializer (keyword :: ts) (some s) := by
  intro i
  obtain ⟨s', j, same, reads⟩ := h i
  refine ⟨some s', j, congrArg some same, fun rest bound hb => ?_⟩
  simp only [List.cons_append, List.length_cons] at hb ⊢
  have binding := reads rest bound (by omega)
  exact (Rule.Leads.accept_none (.cons hk (by decide))).bind
    ((Rule.Leads.accept hk).bind binding.map)

/-- An expression and a semicolon; it does not begin with `var`. -/
theorem expressionInitializer {semicolon : Token} {ts : List Token} {e : Expr}
    (hd : Derives true .expression ts e) (h : Complete .expression ts e)
    (hs : semicolon.kind = .symbol .semicolon) :
    Complete .initializer (ts ++ [semicolon]) (some (.expression e)) := by
  intro i
  obtain ⟨e', j, same, reads⟩ := h i
  refine ⟨some (.expression e'), j, congrArg (fun e => some (Stmt.expression e)) same,
    fun rest bound hb => ?_⟩
  simp only [List.append_assoc, List.cons_append, List.nil_append] at hb ⊢
  have value := reads (semicolon :: rest) bound hb (.cons hs (by decide))
  have statement : Rule.Leads (expressionStatement bound) (ts ++ semicolon :: rest) i
      (pure (.expression e')) rest j :=
    value.bind ((Rule.Leads.expect hs).bind .refl)
  exact (Rule.Leads.accept_none (.of_derives hd rfl (by decide))).bind
    ((Rule.Leads.accept_none (.of_derives hd rfl (by decide))).bind statement.map)

/-! ## Statements

The keyword of a statement decides the rule.  An expression has none, so it comes last, and one has
to see that no expression begins with the keywords that were tried before. -/

/-- An expression and a semicolon. -/
theorem expression {semicolon : Token} {ts : List Token} {e : Expr}
    (hd : Derives true .expression ts e) (h : Complete .expression ts e)
    (hs : semicolon.kind = .symbol .semicolon) :
    Complete (.statement false) (ts ++ [semicolon]) (.expression e) := by
  intro i
  obtain ⟨e', j, same, reads⟩ := h i
  refine ⟨.expression e', j, congrArg Stmt.expression same, fun rest bound hb _ => ?_⟩
  simp only [List.append_assoc, List.cons_append, List.nil_append, List.length_append,
    List.length_cons] at hb ⊢
  obtain ⟨b, rfl⟩ := Nat.exists_eq_add_one.2 (by omega : 0 < bound)
  have value := reads (semicolon :: rest) (b + 1) (by simp; omega) (.cons hs (by decide))
  have lacks (kind : Kind) (h : Nonterminal.expression.begins kind = false) :
      Lacks [kind] (ts ++ semicolon :: rest) :=
    .of_derives hd rfl (by simpa using h)
  -- no keyword is ahead, and no brace
  exact (Rule.Leads.take_none (by decide) (lacks (.keyword .for_) rfl)).bind
    ((Rule.Leads.take_none (by decide) (lacks (.keyword .if_) rfl)).bind
      ((Rule.Leads.take_none (by decide) (lacks (.keyword .while_) rfl)).bind
        ((Rule.Leads.take_none (by decide) (lacks (.keyword .return_) rfl)).bind
          ((Rule.Leads.take_none (by decide) (lacks (.keyword .print) rfl)).bind
            ((Rule.Leads.take_none (by decide) (lacks (.symbol .leftBrace) rfl)).bind
              (value.bind ((Rule.Leads.expect hs).bind .refl)))))))

/-- `print`, an expression and a semicolon. -/
theorem print {keyword semicolon : Token} {ts : List Token} {e : Expr}
    (hk : keyword.kind = .keyword .print) (h : Complete .expression ts e)
    (hs : semicolon.kind = .symbol .semicolon) :
    Complete (.statement false) (keyword :: ts ++ [semicolon]) (.print e) := by
  intro i
  obtain ⟨e', j, same, reads⟩ := h i
  refine ⟨.print e', j, congrArg Stmt.print same, fun rest bound hb _ => ?_⟩
  simp only [List.append_assoc, List.cons_append, List.nil_append, List.length_cons] at hb ⊢
  obtain ⟨b, rfl⟩ := Nat.exists_eq_add_one.2 (by omega : 0 < bound)
  have value := reads (semicolon :: rest) (b + 1) (by omega) (.cons hs (by decide))
  exact (Rule.Leads.take_none (by decide) (.cons hk (by decide))).bind
    ((Rule.Leads.take_none (by decide) (.cons hk (by decide))).bind
      ((Rule.Leads.take_none (by decide) (.cons hk (by decide))).bind
        ((Rule.Leads.take_none (by decide) (.cons hk (by decide))).bind
          ((Rule.Leads.take hk).bind (value.bind ((Rule.Leads.expect hs).bind .refl))))))

/-- `return`, an expression or none, and a semicolon. -/
theorem ret {keyword semicolon : Token} {ts : List Token} {value : Option Expr}
    (hk : keyword.kind = .keyword .return_) (h : Complete .optional ts value)
    (hs : semicolon.kind = .symbol .semicolon) :
    Complete (.statement false) (keyword :: ts ++ [semicolon]) (.ret keyword value) := by
  intro i
  obtain ⟨value', j, same, reads⟩ := h i
  refine ⟨.ret keyword value', j, congrArg (Stmt.ret keyword) same, fun rest bound hb _ => ?_⟩
  simp only [List.append_assoc, List.cons_append, List.nil_append, List.length_cons] at hb ⊢
  obtain ⟨b, rfl⟩ := Nat.exists_eq_add_one.2 (by omega : 0 < bound)
  have value := reads semicolon rest _ (b + 1) hs (by simp) (by omega)
  have statement : Rule.Leads (returned (b + 1) keyword) (ts ++ semicolon :: rest) i
      (pure (.ret keyword value')) rest j := by
    rw [returned_eq]
    exact value.bind ((Rule.Leads.expect hs).bind .refl)
  exact (Rule.Leads.take_none (by decide) (.cons hk (by decide))).bind
    ((Rule.Leads.take_none (by decide) (.cons hk (by decide))).bind
      ((Rule.Leads.take_none (by decide) (.cons hk (by decide))).bind
        ((Rule.Leads.take hk).bind statement)))

/-- An `if` without `else` ends where no `else` is ahead. -/
theorem ifOnly {keyword lparen rparen : Token} {ts us : List Token} {condition : Expr}
    {yes : Stmt} {opened : Bool} (hk : keyword.kind = .keyword .if_)
    (hl : lparen.kind = .symbol .leftParen) (hc : Complete .expression ts condition)
    (hr : rparen.kind = .symbol .rightParen) (hy : Complete (.statement opened) us yes) :
    Complete (.statement true) (keyword :: lparen :: ts ++ rparen :: us)
      (.branch condition yes none) := by
  intro i
  obtain ⟨condition', j, sameCondition, readsCondition⟩ := hc i
  obtain ⟨yes', k, sameYes, readsYes⟩ := hy j
  have sameCondition : condition'.anonymous = condition.anonymous := sameCondition
  have sameYes : yes'.anonymous = yes.anonymous := sameYes
  refine ⟨.branch condition' yes' none, k, ?_, fun rest bound hb noElse => ?_⟩
  · simp only [Nonterminal.anonymous, Stmt.anonymous_branch, sameCondition, sameYes,
      Option.map_none]
  · simp only [List.append_assoc, List.cons_append, List.length_append, List.length_cons] at hb ⊢
    obtain ⟨b, rfl⟩ := Nat.exists_eq_add_one.2 (by omega : 0 < bound)
    have condition := readsCondition (rparen :: (us ++ rest)) (b + 1) (by simp; omega)
      (.cons hr (by decide))
    have yes := readsYes rest b (by simp; omega) (fun _ => noElse rfl)
    exact (Rule.Leads.take_none (by decide) (.cons hk (by decide))).bind
      ((Rule.Leads.take hk).bind ((Rule.Leads.expect hl).bind (condition.bind
        ((Rule.Leads.expect hr).bind (yes.bind
          ((Rule.Leads.accept_none (noElse rfl)).bind .refl))))))

/-- The branch before `else` ends in no open `if`, so that the `else` is this one's. -/
theorem ifElse {keyword lparen rparen otherwise : Token} {ts us vs : List Token}
    {condition : Expr} {yes no : Stmt} {opened : Bool} (hk : keyword.kind = .keyword .if_)
    (hl : lparen.kind = .symbol .leftParen) (hc : Complete .expression ts condition)
    (hr : rparen.kind = .symbol .rightParen) (hy : Complete (.statement false) us yes)
    (ho : otherwise.kind = .keyword .else_) (hn : Complete (.statement opened) vs no) :
    Complete (.statement opened) (keyword :: lparen :: ts ++ rparen :: us ++ otherwise :: vs)
      (.branch condition yes (some no)) := by
  intro i
  obtain ⟨condition', j, sameCondition, readsCondition⟩ := hc i
  obtain ⟨yes', k, sameYes, readsYes⟩ := hy j
  obtain ⟨no', l, sameNo, readsNo⟩ := hn k
  have sameCondition : condition'.anonymous = condition.anonymous := sameCondition
  have sameYes : yes'.anonymous = yes.anonymous := sameYes
  have sameNo : no'.anonymous = no.anonymous := sameNo
  refine ⟨.branch condition' yes' (some no'), l, ?_, fun rest bound hb noElse => ?_⟩
  · simp only [Nonterminal.anonymous, Stmt.anonymous_branch, sameCondition, sameYes,
      Option.map_some, sameNo]
  · simp only [List.append_assoc, List.cons_append, List.length_append, List.length_cons] at hb ⊢
    obtain ⟨b, rfl⟩ := Nat.exists_eq_add_one.2 (by omega : 0 < bound)
    have condition := readsCondition (rparen :: (us ++ otherwise :: (vs ++ rest))) (b + 1)
      (by simp; omega) (.cons hr (by decide))
    have yes := readsYes (otherwise :: (vs ++ rest)) b (by simp; omega)
      (fun h => absurd h Bool.false_ne_true)
    have no := readsNo rest b (by simp; omega) noElse
    exact (Rule.Leads.take_none (by decide) (.cons hk (by decide))).bind
      ((Rule.Leads.take hk).bind ((Rule.Leads.expect hl).bind (condition.bind
        ((Rule.Leads.expect hr).bind (yes.bind
          ((Rule.Leads.accept ho).bind (no.bind .refl)))))))

/-- A `while` loop; it is open if its body is. -/
theorem loop {keyword lparen rparen : Token} {ts us : List Token} {condition : Expr}
    {body : Stmt} {opened : Bool} (hk : keyword.kind = .keyword .while_)
    (hl : lparen.kind = .symbol .leftParen) (hc : Complete .expression ts condition)
    (hr : rparen.kind = .symbol .rightParen) (hb : Complete (.statement opened) us body) :
    Complete (.statement opened) (keyword :: lparen :: ts ++ rparen :: us)
      (.loop condition body) := by
  intro i
  obtain ⟨condition', j, sameCondition, readsCondition⟩ := hc i
  obtain ⟨body', k, sameBody, readsBody⟩ := hb j
  have sameCondition : condition'.anonymous = condition.anonymous := sameCondition
  have sameBody : body'.anonymous = body.anonymous := sameBody
  refine ⟨.loop condition' body', k, ?_, fun rest bound hb noElse => ?_⟩
  · simp only [Nonterminal.anonymous, Stmt.anonymous_loop, sameCondition, sameBody]
  · simp only [List.append_assoc, List.cons_append, List.length_append, List.length_cons] at hb ⊢
    obtain ⟨b, rfl⟩ := Nat.exists_eq_add_one.2 (by omega : 0 < bound)
    have condition := readsCondition (rparen :: (us ++ rest)) (b + 1) (by simp; omega)
      (.cons hr (by decide))
    have body := readsBody rest b (by simp; omega) noElse
    exact (Rule.Leads.take_none (by decide) (.cons hk (by decide))).bind
      ((Rule.Leads.take_none (by decide) (.cons hk (by decide))).bind
        ((Rule.Leads.take hk).bind ((Rule.Leads.expect hl).bind (condition.bind
          ((Rule.Leads.expect hr).bind (body.bind .refl))))))

/-- A `for` loop is built alike from trees that are the same up to identities. -/
theorem anonymous_asWhile (initializer : Option Stmt) (condition increment : Option Expr)
    (body : Stmt) :
    (asWhile initializer condition increment body).anonymous =
      asWhile (initializer.map Stmt.anonymous) (condition.map Expr.anonymous)
        (increment.map Expr.anonymous) body.anonymous := by
  cases initializer <;> cases condition <;> cases increment <;> simp [asWhile, test]

/-- A `for` loop with any of its clauses; what is read is what stands for it. -/
theorem forLoop {keyword lparen semicolon rparen : Token} {ts us vs ws : List Token}
    {initializer : Option Stmt} {condition increment : Option Expr} {body : Stmt}
    {opened : Bool} (hk : keyword.kind = .keyword .for_)
    (hl : lparen.kind = .symbol .leftParen) (hi : Complete .initializer ts initializer)
    (hc : Complete .optional us condition) (hs : semicolon.kind = .symbol .semicolon)
    (hn : Complete .optional vs increment) (hr : rparen.kind = .symbol .rightParen)
    (hb : Complete (.statement opened) ws body) :
    Complete (.statement opened)
      (keyword :: lparen :: ts ++ us ++ semicolon :: vs ++ rparen :: ws)
      (asWhile initializer condition increment body) := by
  intro i
  obtain ⟨initializer', j, sameInitializer, readsInitializer⟩ := hi i
  obtain ⟨condition', k, sameCondition, readsCondition⟩ := hc j
  obtain ⟨increment', l, sameIncrement, readsIncrement⟩ := hn k
  obtain ⟨body', m, sameBody, readsBody⟩ := hb l
  refine ⟨asWhile initializer' condition' increment' body', m, ?_,
    fun rest bound hb noElse => ?_⟩
  · simp only [Nonterminal.anonymous] at sameInitializer sameCondition sameIncrement sameBody ⊢
    rw [anonymous_asWhile, sameInitializer, sameCondition, sameIncrement, sameBody,
      anonymous_asWhile]
  · simp only [List.append_assoc, List.cons_append, List.length_append, List.length_cons] at hb ⊢
    obtain ⟨b, rfl⟩ := Nat.exists_eq_add_one.2 (by omega : 0 < bound)
    have initializer := readsInitializer (us ++ semicolon :: (vs ++ rparen :: (ws ++ rest))) (b + 1)
      (by simp; omega)
    have condition := readsCondition semicolon (vs ++ rparen :: (ws ++ rest)) _ (b + 1) hs
      (by simp) (by simp; omega)
    have increment := readsIncrement rparen (ws ++ rest) _ (b + 1) hr (by simp) (by simp; omega)
    have body := readsBody rest b (by simp; omega) noElse
    rw [← forLoop_eq_asWhile]
    exact (Rule.Leads.take hk).bind ((Rule.Leads.expect hl).bind (initializer.bind
      (condition.bind ((Rule.Leads.expect hs).bind (increment.bind
        ((Rule.Leads.expect hr).bind (body.bind .refl)))))))

theorem block {lbrace rbrace : Token} {ts : List Token} {body : List Stmt}
    (hl : lbrace.kind = .symbol .leftBrace) (h : Complete .declarations ts body)
    (hr : rbrace.kind = .symbol .rightBrace) :
    Complete (.statement false) (lbrace :: ts ++ [rbrace]) (.block body) := by
  intro i
  obtain ⟨body', j, same, reads⟩ := h i
  have same : body'.map Stmt.anonymous = body.map Stmt.anonymous := same
  refine ⟨.block body', j, ?_, fun rest bound hb _ => ?_⟩
  · simp only [Nonterminal.anonymous, Stmt.anonymous_block, same]
  · simp only [List.append_assoc, List.cons_append, List.nil_append, List.length_cons] at hb ⊢
    obtain ⟨b, rfl⟩ := Nat.exists_eq_add_one.2 (by omega : 0 < bound)
    have body : Rule.Leads (Parse.block (declaration b) (b + 1)) (ts ++ rbrace :: rest) i
        (pure body') rest j := reads.braced hr (by omega) (by omega)
    exact (Rule.Leads.take_none (by decide) (.cons hl (by decide))).bind
      ((Rule.Leads.take_none (by decide) (.cons hl (by decide))).bind
        ((Rule.Leads.take_none (by decide) (.cons hl (by decide))).bind
          ((Rule.Leads.take_none (by decide) (.cons hl (by decide))).bind
            ((Rule.Leads.take_none (by decide) (.cons hl (by decide))).bind
              ((Rule.Leads.take hl).bind body.map)))))

/-! ## Declarations

Declarations are read until no token is left or, in a block, until its brace.  That nothing inside
of them is taken for the end is again a matter of first tokens. -/

theorem done : Complete .declarations [] [] := by
  intro i
  refine ⟨[], i, rfl, fun rest bound rounds braced _ hrounds _ => ⟨rounds, hrounds, ?_⟩⟩
  rw [show (([] : List Stmt) ++ ·) = id from rfl, id_map]
  exact .refl

/-- A declaration, and others after it: what it could be continued by is no first token of another
one. -/
theorem next {ts us : List Token} {s : Stmt} {ss : List Stmt}
    (hd : Derives true .declaration ts s) (hds : Derives true .declarations us ss)
    (hs : Complete .declaration ts s) (hss : Complete .declarations us ss) :
    Complete .declarations (ts ++ us) (s :: ss) := by
  intro i
  obtain ⟨s', j, sameFirst, readsFirst⟩ := hs i
  obtain ⟨ss', k, sameOthers, readsOthers⟩ := hss j
  refine ⟨s' :: ss', k, List.cons_eq_cons.2 ⟨sameFirst, sameOthers⟩,
    fun rest bound rounds braced hb hrounds noElse => ?_⟩
  rw [List.append_assoc] at hb hrounds ⊢
  have filled := List.length_pos_iff.2 (hd.ne_nil rfl)
  obtain ⟨rounds, rfl⟩ := Nat.exists_eq_add_one.2 (by simp at hrounds; omega : 0 < rounds)
  have first := readsFirst (us ++ rest) bound hb (.else_of_derives hds noElse)
  simp only [List.length_append] at hb hrounds
  obtain ⟨left, hleft, others⟩ := readsOthers rest bound rounds braced (by simp; omega)
    (by simp; omega) noElse
  refine ⟨left, hleft, (Rule.Leads.declarations_more (by simp; omega)
    (.of_derives hd rfl (by decide))).trans (first.bind (others.bind_left.trans ?_))⟩
  simp only [bind_map_left]
  exact .refl

/-- A class has a name and nothing in its braces. -/
theorem cls {keyword name lbrace rbrace : Token} (hk : keyword.kind = .keyword .class_)
    (hn : name.kind = .identifier) (hl : lbrace.kind = .symbol .leftBrace)
    (hr : rbrace.kind = .symbol .rightBrace) :
    Complete .declaration [keyword, name, lbrace, rbrace] (.cls name) := by
  intro i
  refine ⟨.cls name, i, rfl, fun rest bound hb _ => ?_⟩
  obtain ⟨b, rfl⟩ := Nat.exists_eq_add_one.2 (by simp at hb; omega : 0 < bound)
  exact .recovering ((Rule.Leads.take hk).bind ((Rule.Leads.expect hn).bind
    ((Rule.Leads.expect hl).bind ((Rule.Leads.accept hr).bind .refl))))

/-- A function has parameters and a body. -/
theorem function {keyword name lparen rparen lbrace rbrace : Token} {ts us : List Token}
    {parameters : List Token} {body : List Stmt} (hk : keyword.kind = .keyword .fun_)
    (hn : name.kind = .identifier) (hl : lparen.kind = .symbol .leftParen)
    (hp : Complete .parameters ts parameters) (hlen : parameters.length ≤ 255)
    (hr : rparen.kind = .symbol .rightParen) (hlb : lbrace.kind = .symbol .leftBrace)
    (h : Complete .declarations us body) (hrb : rbrace.kind = .symbol .rightBrace) :
    Complete .declaration
      (keyword :: name :: lparen :: ts ++ rparen :: lbrace :: us ++ [rbrace])
      (.function name parameters body) := by
  intro i
  obtain ⟨parameters', j, rfl, readsParameters⟩ := hp i
  obtain ⟨body', k, same, reads⟩ := h j
  have same : body'.map Stmt.anonymous = body.map Stmt.anonymous := same
  refine ⟨.function name parameters' body', k, ?_, fun rest bound hb _ => ?_⟩
  · simp only [Nonterminal.anonymous, Stmt.anonymous_function, same, id]
  · simp only [List.append_assoc, List.cons_append, List.nil_append, List.length_append,
      List.length_cons] at hb ⊢
    obtain ⟨b, rfl⟩ := Nat.exists_eq_add_one.2 (by omega : 0 < bound)
    have parameters := readsParameters rparen (lbrace :: (us ++ rbrace :: rest))
      .tooManyParameters .parameterName hr hlen
    have body : Rule.Leads (Parse.block (declaration b) (b + 1)) (us ++ rbrace :: rest) j
        (pure body') rest k := reads.braced hrb (by simp; omega) (by simp; omega)
    exact .recovering ((Rule.Leads.take_none (by decide) (.cons hk (by decide))).bind
      ((Rule.Leads.take hk).bind ((Rule.Leads.expect hn).bind ((Rule.Leads.expect hl).bind
        (parameters.bind ((Rule.Leads.expect hr).bind ((Rule.Leads.expect hlb).bind
          (body.bind .refl))))))))

theorem var {keyword : Token} {ts : List Token} {s : Stmt} (hk : keyword.kind = .keyword .var)
    (h : Complete .binding ts s) : Complete .declaration (keyword :: ts) s := by
  intro i
  obtain ⟨s', j, same, reads⟩ := h i
  refine ⟨s', j, same, fun rest bound hb _ => ?_⟩
  simp only [List.cons_append, List.length_cons] at hb ⊢
  obtain ⟨b, rfl⟩ := Nat.exists_eq_add_one.2 (by omega : 0 < bound)
  have binding := reads rest (b + 1) (by omega)
  exact .recovering ((Rule.Leads.take_none (by decide) (.cons hk (by decide))).bind
    ((Rule.Leads.take_none (by decide) (.cons hk (by decide))).bind
      ((Rule.Leads.take hk).bind binding)))

/-- A statement begins with no keyword of a declaration. -/
theorem statement {opened : Bool} {ts : List Token} {s : Stmt}
    (hd : Derives true (.statement opened) ts s) (h : Complete (.statement opened) ts s) :
    Complete .declaration ts s := by
  intro i
  obtain ⟨s', j, same, reads⟩ := h i
  refine ⟨s', j, same, fun rest bound hb noElse => ?_⟩
  have filled := List.length_pos_iff.2 (hd.ne_nil rfl)
  obtain ⟨b, rfl⟩ := Nat.exists_eq_add_one.2 (by simp at hb; omega : 0 < bound)
  have statement := reads rest (b + 1) hb (fun _ => noElse)
  have lacks (kind : Kind) (h : beginsStatement kind = false) : Lacks [kind] (ts ++ rest) :=
    .of_derives hd rfl (by simpa [Nonterminal.begins] using h)
  exact .recovering ((Rule.Leads.take_none (by decide) (lacks (.keyword .class_) rfl)).bind
    ((Rule.Leads.take_none (by decide) (lacks (.keyword .fun_) rfl)).bind
      ((Rule.Leads.take_none (by decide) (lacks (.keyword .var) rfl)).bind statement)))

end Complete

/-- **Every derivable text is read**, to the tree it is derivable as. -/
theorem complete {n : Nonterminal} {ts : List Token} {x : n.Tree} (h : Derives true n ts x)
    (hn : n.Proper) : Complete n ts x := by
  induction h with
  | assign hname heq _ ih => exact .assign hname heq (ih hn)
  | set hdo hd hname heq _ iho ihv => exact .set hdo (iho trivial) hd hname heq (ihv trivial)
  | operation hd ih => exact .operation hd (ih (List.suffix_refl _))
  | operand _ ih => exact .operand (ih ((List.suffix_cons _ _).trans hn))
  | infixed _ hk _ ihl ihr =>
      exact .infixed (ihl hn) hk (ihr ((List.suffix_cons _ _).trans hn)) hn
  | tightest _ ih => exact .tightest (ih trivial)
  | unary hk _ ih => exact .unary hk (ih trivial)
  | suffixed hd ih => exact .suffixed hd (ih trivial)
  | primary _ ih => exact .primary (ih trivial)
  | call _ hl _ hlen hr ihc iha => exact .call (ihc trivial) hl (iha trivial) hlen hr
  | get _ hd hname ih => exact .get (ih trivial) hd hname
  | noArguments => exact .noArguments
  | someArguments hd ih => exact .someArguments hd (ih trivial)
  | lastItem _ ih => exact .lastItem (ih trivial)
  | nextItem _ hk _ ihe ihes => exact .nextItem (ihe trivial) hk (ihes trivial)
  | literal hv => exact .literal hv
  | read hname => exact .read hname
  | group hl _ hr ih => exact .group hl (ih trivial) hr
  | absent => exact .absent
  | present hd ih => exact .present hd (ih trivial)
  | done => exact .done
  | next hd hds ihs ihss => exact .next hd hds (ihs trivial) (ihss trivial)
  | cls hk hname hl hr => exact .cls hk hname hl hr
  | function hk hname hl _ hlen hr hlb _ hrb ihp ihb =>
      exact .function hk hname hl (ihp trivial) hlen hr hlb (ihb trivial) hrb
  | var hk _ ih => exact .var hk (ih trivial)
  | statement hd ih => exact .statement hd (ih trivial)
  | uninitialized hname hs => exact .uninitialized hname hs
  | initialized hname heq _ hs ih => exact .initialized hname heq (ih trivial) hs
  | noParameters => exact .noParameters
  | someParameters hd ih => exact .someParameters hd (ih trivial)
  | lastName hname => exact .lastName hname
  | nextName hname hk _ ih => exact .nextName hname hk (ih trivial)
  | expression hd hs ih => exact .expression hd (ih trivial) hs
  | print hk _ hs ih => exact .print hk (ih trivial) hs
  | ret hk _ hs ih => exact .ret hk (ih trivial) hs
  | ifOnly hk hl _ hr _ ihc ihy => exact .ifOnly hk hl (ihc trivial) hr (ihy trivial)
  | ifElse hk hl _ hr _ closed ho _ ihc ihy ihn =>
      obtain rfl := closed rfl
      exact .ifElse hk hl (ihc trivial) hr (ihy trivial) ho (ihn trivial)
  | loop hk hl _ hr _ ihc ihb => exact .loop hk hl (ihc trivial) hr (ihb trivial)
  | forLoop hk hl _ _ hs _ hr _ ihi ihc ihn ihb =>
      exact .forLoop hk hl (ihi trivial) (ihc trivial) hs (ihn trivial) hr (ihb trivial)
  | noInitializer hs => exact .noInitializer hs
  | varInitializer hk _ ih => exact .varInitializer hk (ih trivial)
  | expressionInitializer hd hs ih => exact .expressionInitializer hd (ih trivial) hs
  | block hl _ hr ih => exact .block hl (ih trivial) hr

end Lox.Parse
