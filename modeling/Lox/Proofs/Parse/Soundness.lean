import Lox.Proofs.Parse.Advance
import Lox.Proofs.Parse.Grammar

/-!
# What is read without a fault is derivable

Where a rule succeeds and no fault was recorded on the way, the tokens it took are a text of its
nonterminal and its result is the tree of a derivation of the nearest kind.

The proof follows the rules: each success is taken apart into the steps it is made of, with the
lemmas about `… = .ok …`, and every step says which tokens it took and which part of a derivation
they are.  Two places need more than that.  The target of an assignment was read as an operation,
and has to be derived again as a call; and an `else` goes to the nearest `if` because the rule for a
branch takes it as soon as it is ahead.

* `Cursor.Took` — tokens were taken and no fault was recorded.
* `Rule.Sound` — the statement for one rule; `Rule.Sound.expression`, `Rule.Sound.statement`, … —
  the rules.
-/

namespace Lox.Parse

open Grammar

variable {α : Type}

/-- From one cursor to another the given tokens were taken and no fault was recorded. -/
structure Cursor.Took (c d : Cursor) (ts : List Token) : Prop where
  rest : c.rest = ts ++ d.rest
  faults : d.faults = c.faults

namespace Cursor.Took

theorem refl (c : Cursor) : c.Took c [] :=
  ⟨rfl, rfl⟩

/-- What was taken in two stretches. -/
theorem trans {c d e : Cursor} {ts us : List Token} (hcd : c.Took d ts) (hde : d.Took e us) :
    c.Took e (ts ++ us) :=
  ⟨by rw [hcd.rest, hde.rest, List.append_assoc], hde.faults.trans hcd.faults⟩

theorem cons {c d e : Cursor} {t : Token} {us : List Token} (hcd : c.Took d [t])
    (hde : d.Took e us) : c.Took e (t :: us) :=
  hcd.trans hde

/-- A token that was taken has one of the kinds. -/
theorem of_acceptAny {kinds : List Kind} {t : Token} {c d : Cursor}
    (h : acceptAny kinds c = .ok (some t) d) : t.kind ∈ kinds ∧ c.Took d [t] := by
  obtain ⟨kind, rest, same⟩ := acceptAny_eq_some h
  exact ⟨kind, rest, by rw [same]⟩

/-- A token that was taken has the kind. -/
theorem of_accept {kind : Kind} {t : Token} {c d : Cursor}
    (h : accept kind c = .ok (some t) d) : t.kind = kind ∧ c.Took d [t] := by
  simpa using of_acceptAny h

/-- A rule that depends on the kind of the token ahead has taken that token, or nothing yet. -/
theorem of_ifNext {α : Type} {kind : Kind} {yes : Token → Rule α} {no : Rule α} {c d : Cursor}
    {a : α} (h : ifNext kind yes no c = .ok a d) :
    (∃ t e, t.kind = kind ∧ c.Took e [t] ∧ yes t e = .ok a d) ∨ no c = .ok a d := by
  obtain ⟨found, e, he, h⟩ := bind_eq_ok.1 h
  cases found with
  | some t =>
      obtain ⟨hk, took⟩ := of_accept he
      exact .inl ⟨t, e, hk, took, h⟩
  | none =>
      obtain ⟨rfl, -⟩ := accept_eq_none he
      exact .inr h

/-- So has one that had to be there. -/
theorem of_expect {kind : Kind} {what : Expected} {t : Token} {c d : Cursor}
    (h : expect kind what c = .ok t d) : t.kind = kind ∧ c.Took d [t] := by
  obtain ⟨kind, rest, same⟩ := expect_eq_ok h
  exact ⟨kind, rest, by rw [same]⟩

/-- To give out an identity takes no token. -/
theorem of_fresh {id : NodeId} {c d : Cursor} (h : fresh c = .ok id d) : c.Took d [] := by
  rw [(fresh_eq_ok h).2]
  exact ⟨rfl, rfl⟩

end Cursor.Took

/-! ## Targets of assignments

A tree that is an access or a property was derived without an operator on the way, so its text is a
name, or ends in a dot and a name. -/

/-- What is neither an operation nor an operator before its operand is called or read. -/
theorem derives_call_of_operation {nearest : Bool} {e : Expr} {ls : List Level}
    (hnode : ∀ l ∈ ls, ∀ left operator right, e ≠ l.node left operator right)
    (hunary : ∀ operator operand, e ≠ .unary operator operand) {ts : List Token}
    (h : Derives nearest (.operation ls) ts e) : Derives nearest .call ts e := by
  induction ls with
  | nil =>
      cases h with
      | tightest h =>
          cases h with
          | unary => exact absurd rfl (hunary _ _)
          | suffixed h => exact h
  | cons l ls ih =>
      cases h with
      | operand h => exact ih (fun l' hl' => hnode l' (List.mem_cons_of_mem _ hl')) h
      | infixed => exact absurd rfl (hnode l List.mem_cons_self _ _ _)

/-- An operation that is an access is its name. -/
theorem derives_read {nearest : Bool} {ts : List Token} {id : NodeId} {name : Token}
    (h : Derives nearest (.operation levels) ts (.read id name)) :
    ts = [name] ∧ name.kind = .identifier := by
  have h := derives_call_of_operation (by simp [levels]) (by simp) h
  cases h with
  | primary h =>
      cases h with
      | read hk => exact ⟨rfl, hk⟩

/-- An operation that is a property is a call, a dot and a name. -/
theorem derives_get {nearest : Bool} {ts : List Token} {object : Expr} {name : Token}
    (h : Derives nearest (.operation levels) ts (.get object name)) :
    ∃ us dot, ts = us ++ [dot, name] ∧ dot.kind = .symbol .dot ∧ name.kind = .identifier ∧
      Derives nearest .call us object := by
  have h := derives_call_of_operation (by simp [levels]) (by simp) h
  cases h with
  | primary h => cases h
  | @get dot _ us _ ho hd hn => exact ⟨us, dot, rfl, hd, hn, ho⟩

/-! ## Rules -/

/-- Where the rule succeeds, it has recorded no fault and read a text of the nonterminal. -/
def Rule.Sound (n : Nonterminal) (rule : Rule n.Tree) : Prop :=
  ∀ ⦃c d : Cursor⦄ ⦃x : n.Tree⦄, rule c = .ok x d → ∃ ts, c.Took d ts ∧ Derives true n ts x

namespace Rule.Sound

/-! ## Operators

The loop over one level hands the tree so far on, with its tokens. -/

/-- Each round adds an operator and an operand to the right of what there is. -/
theorem chain {l : Level} {ls : List Level} {operand : Rule Expr}
    (h : Rule.Sound (.operation ls) operand) {bound : Nat} {left e : Expr} {ts : List Token}
    (hl : Derives true (.operation (l :: ls)) ts left) {c d : Cursor}
    (hc : Parse.chain l.kinds l.node operand bound left c = .ok e d) :
    ∃ us, c.Took d us ∧ Derives true (.operation (l :: ls)) (ts ++ us) e := by
  induction bound generalizing left ts c with
  | zero =>
      obtain ⟨rfl, rfl⟩ := pure_eq_ok.1 hc
      exact ⟨[], .refl c, by simpa using hl⟩
  | succ bound ih =>
      unfold Parse.chain at hc
      obtain ⟨found, c₁, h₁, hc⟩ := bind_eq_ok.1 hc
      cases found with
      | none =>
          obtain ⟨rfl, rfl⟩ := pure_eq_ok.1 hc
          obtain ⟨rfl, -⟩ := acceptAny_eq_none h₁
          exact ⟨[], .refl _, by simpa using hl⟩
      | some operator =>
          obtain ⟨kind, took₁⟩ := Cursor.Took.of_acceptAny h₁
          obtain ⟨right, c₂, h₂, hc⟩ := bind_eq_ok.1 hc
          obtain ⟨us, took₂, hr⟩ := h h₂
          obtain ⟨vs, took₃, he⟩ := ih (.infixed hl kind hr) hc
          exact ⟨operator :: us ++ vs, (took₁.cons took₂).trans took₃, by simpa using he⟩

theorem level {l : Level} {ls : List Level} {operand : Rule Expr}
    (h : Rule.Sound (.operation ls) operand) (bound : Nat) :
    Rule.Sound (.operation (l :: ls)) (Parse.level l.kinds l.node operand bound) := by
  intro c d e hc
  obtain ⟨left, c₁, h₁, hc⟩ := bind_eq_ok.1 hc
  obtain ⟨ts, took₁, hl⟩ := h h₁
  obtain ⟨us, took₂, he⟩ := chain h (.operand hl) hc
  exact ⟨ts ++ us, took₁.trans took₂, he⟩

/-! ## Expressions

The rule for expressions is a parameter, given that it is sound. -/

section
variable {rule : Rule Expr} (h : Rule.Sound .expression rule)
include h

/-- A constant, a name or an expression in parentheses. -/
theorem primary : Rule.Sound .primary (Parse.primary rule) := by
  intro c d e hc
  unfold Parse.primary at hc
  obtain ⟨found, c₁, h₁, hc⟩ := bind_eq_ok.1 hc
  rcases found with _ | value
  · obtain rfl := acceptLiteral_eq_none h₁
    obtain ⟨found, c₂, h₂, hc⟩ := bind_eq_ok.1 hc
    rcases found with _ | name
    · obtain ⟨rfl, -⟩ := accept_eq_none h₂
      obtain ⟨found, c₃, h₃, hc⟩ := bind_eq_ok.1 hc
      rcases found with _ | lparen
      · exact absurd hc fail_eq_ok
      · obtain ⟨hl, took₃⟩ := Cursor.Took.of_accept h₃
        obtain ⟨inner, c₄, h₄, hc⟩ := bind_eq_ok.1 hc
        obtain ⟨ts, took₄, hi⟩ := h h₄
        obtain ⟨rparen, c₅, h₅, hc⟩ := bind_eq_ok.1 hc
        obtain ⟨hr, took₅⟩ := Cursor.Took.of_expect h₅
        obtain ⟨rfl, rfl⟩ := pure_eq_ok.1 hc
        exact ⟨lparen :: ts ++ [rparen], (took₃.cons took₄).trans took₅, .group hl hi hr⟩
    · obtain ⟨hn, took₂⟩ := Cursor.Took.of_accept h₂
      obtain ⟨id, c₃, h₃, hc⟩ := bind_eq_ok.1 hc
      obtain ⟨rfl, rfl⟩ := pure_eq_ok.1 hc
      exact ⟨[name], took₂.trans (.of_fresh h₃), .read hn⟩
  · obtain ⟨t, ht, rest, same⟩ := acceptLiteral_eq_some h₁
    obtain ⟨rfl, rfl⟩ := pure_eq_ok.1 hc
    exact ⟨[t], ⟨rest, by rw [same]⟩, .literal (Token.isConstant_iff.2 ht)⟩

/-- A list has no more members than there is room for. -/
theorem items {tooMany : SyntaxFault} {room : Nat} {c d : Cursor} {es : List Expr}
    (hc : separated tooMany rule room c = .ok es d) :
    es.length ≤ room ∧ ∃ ts, c.Took d ts ∧ Derives true .items ts es := by
  induction room generalizing c d es with
  | zero => exact absurd hc fail_eq_ok
  | succ room ih =>
      unfold separated at hc
      obtain ⟨e, c₁, h₁, hc⟩ := bind_eq_ok.1 hc
      obtain ⟨ts, took₁, he⟩ := h h₁
      obtain ⟨found, c₂, h₂, hc⟩ := bind_eq_ok.1 hc
      rcases found with _ | comma
      · obtain ⟨rfl, -⟩ := accept_eq_none h₂
        obtain ⟨rfl, rfl⟩ := pure_eq_ok.1 hc
        exact ⟨by simp, ts, took₁, .lastItem he⟩
      · obtain ⟨hk, took₂⟩ := Cursor.Took.of_accept h₂
        obtain ⟨es', c₃, h₃, hc⟩ := bind_eq_ok.1 hc
        obtain ⟨hlen, us, took₃, hes⟩ := ih h₃
        obtain ⟨rfl, rfl⟩ := pure_eq_ok.1 hc
        exact ⟨by simpa using hlen, ts ++ comma :: us, took₁.trans (took₂.cons took₃),
          .nextItem he hk hes⟩

/-- Arguments in parentheses, at most 255. -/
theorem arguments {tooMany : SyntaxFault} {c d : Cursor} {es : List Expr}
    (hc : parenthesized tooMany rule c = .ok es d) :
    es.length ≤ 255 ∧ ∃ ts, c.Took d ts ∧ Derives true .arguments ts es := by
  unfold parenthesized at hc
  obtain ⟨closes, c₁, h₁, hc⟩ := bind_eq_ok.1 hc
  obtain ⟨-, rfl⟩ := sees_eq_ok h₁
  split at hc
  · obtain ⟨rfl, rfl⟩ := pure_eq_ok.1 hc
    exact ⟨Nat.zero_le _, [], .refl _, .noArguments⟩
  · obtain ⟨hlen, ts, took, hes⟩ := items h hc
    exact ⟨hlen, ts, took, .someArguments hes⟩

/-- Each round adds arguments or a property to the right of what there is. -/
theorem suffixes {bound : Nat} {e f : Expr} {ts : List Token} (he : Derives true .call ts e)
    {c d : Cursor} (hc : Parse.suffixes rule bound e c = .ok f d) :
    ∃ us, c.Took d us ∧ Derives true .call (ts ++ us) f := by
  induction bound generalizing e ts c with
  | zero =>
      obtain ⟨rfl, rfl⟩ := pure_eq_ok.1 hc
      exact ⟨[], .refl c, by simpa using he⟩
  | succ bound ih =>
      unfold Parse.suffixes at hc
      obtain ⟨found, c₁, h₁, hc⟩ := bind_eq_ok.1 hc
      rcases found with _ | lparen
      · obtain ⟨rfl, -⟩ := accept_eq_none h₁
        obtain ⟨found, c₂, h₂, hc⟩ := bind_eq_ok.1 hc
        rcases found with _ | dot
        · obtain ⟨rfl, -⟩ := accept_eq_none h₂
          obtain ⟨rfl, rfl⟩ := pure_eq_ok.1 hc
          exact ⟨[], .refl _, by simpa using he⟩
        · obtain ⟨hd, took₂⟩ := Cursor.Took.of_accept h₂
          obtain ⟨name, c₃, h₃, hc⟩ := bind_eq_ok.1 hc
          obtain ⟨hn, took₃⟩ := Cursor.Took.of_expect h₃
          obtain ⟨us, took₄, hf⟩ := ih (.get he hd hn) hc
          exact ⟨dot :: name :: us, took₂.cons (took₃.cons took₄), by simpa using hf⟩
      · obtain ⟨hl, took₁⟩ := Cursor.Took.of_accept h₁
        obtain ⟨es, c₂, h₂, hc⟩ := bind_eq_ok.1 hc
        obtain ⟨hlen, us, took₂, hes⟩ := arguments h h₂
        obtain ⟨rparen, c₃, h₃, hc⟩ := bind_eq_ok.1 hc
        obtain ⟨hr, took₃⟩ := Cursor.Took.of_expect h₃
        obtain ⟨vs, took₄, hf⟩ := ih (.call he hl hes hlen hr) hc
        exact ⟨lparen :: us ++ [rparen] ++ vs, ((took₁.cons took₂).trans took₃).trans took₄,
          by simpa using hf⟩

/-- What is called first, and the loop. -/
theorem suffixed (bound : Nat) : Rule.Sound .call (Parse.suffixed rule bound) := by
  intro c d e hc
  obtain ⟨f, c₁, h₁, hc⟩ := bind_eq_ok.1 hc
  obtain ⟨ts, took₁, hf⟩ := primary h h₁
  obtain ⟨us, took₂, he⟩ := suffixes h (.primary hf) hc
  exact ⟨ts ++ us, took₁.trans took₂, he⟩

/-- Operators before their operand. -/
theorem unary (bound : Nat) : Rule.Sound .unary (Parse.unary rule bound) := by
  induction bound with
  | zero =>
      intro c d e hc
      obtain ⟨ts, took, he⟩ := suffixed h 0 hc
      exact ⟨ts, took, .suffixed he⟩
  | succ bound ih =>
      intro c d e hc
      unfold Parse.unary at hc
      obtain ⟨found, c₁, h₁, hc⟩ := bind_eq_ok.1 hc
      rcases found with _ | operator
      · obtain ⟨rfl, -⟩ := acceptAny_eq_none h₁
        obtain ⟨ts, took, he⟩ := suffixed h _ hc
        exact ⟨ts, took, .suffixed he⟩
      · obtain ⟨kind, took₁⟩ := Cursor.Took.of_acceptAny h₁
        obtain ⟨operand, c₂, h₂, hc⟩ := bind_eq_ok.1 hc
        obtain ⟨ts, took₂, ho⟩ := ih h₂
        obtain ⟨rfl, rfl⟩ := pure_eq_ok.1 hc
        exact ⟨operator :: ts, took₁.cons took₂, .unary kind ho⟩

theorem disjunction (bound : Nat) :
    Rule.Sound (.operation levels) (Parse.disjunction rule bound) := by
  have tightest : Rule.Sound (.operation []) (Parse.unary rule bound) := by
    intro c d e hc
    obtain ⟨ts, took, he⟩ := unary h bound hc
    exact ⟨ts, took, .tightest he⟩
  exact level (level (level (level (level (level tightest bound) bound) bound) bound) bound) bound

/-- What is on the left of `=` is one of the two targets, or a fault is recorded. -/
theorem assignment (bound : Nat) : Rule.Sound .expression (Parse.assignment rule bound) := by
  intro c d e hc
  unfold Parse.assignment at hc
  obtain ⟨target, c₁, h₁, hc⟩ := bind_eq_ok.1 hc
  obtain ⟨ts, took₁, ht⟩ := disjunction h bound h₁
  obtain ⟨found, c₂, h₂, hc⟩ := bind_eq_ok.1 hc
  rcases found with _ | equal
  · obtain ⟨rfl, -⟩ := accept_eq_none h₂
    obtain ⟨rfl, rfl⟩ := pure_eq_ok.1 hc
    exact ⟨ts, took₁, .operation ht⟩
  · obtain ⟨heq, took₂⟩ := Cursor.Took.of_accept h₂
    obtain ⟨value, c₃, h₃, hc⟩ := bind_eq_ok.1 hc
    obtain ⟨us, took₃, hv⟩ := h h₃
    have took := took₁.trans (took₂.cons took₃)
    rcases assignTo_eq_ok hc with ⟨id, name, rfl, rfl, same⟩ | ⟨object, name, rfl, rfl, rfl⟩
    · obtain ⟨rfl, hn⟩ := derives_read ht
      have minted : c₃.Took d [] := by rw [same]; exact ⟨rfl, rfl⟩
      exact ⟨name :: equal :: us, by simpa using took.trans minted, .assign hn heq hv⟩
    · obtain ⟨ts', dot, rfl, hd, hn, ho⟩ := derives_get ht
      exact ⟨ts' ++ dot :: name :: equal :: us, by simpa using took, .set ho hd hn heq hv⟩

end

/-- **What is read as an expression is one**, with any bound. -/
theorem expression (bound : Nat) : Rule.Sound .expression (Parse.expression bound) := by
  induction bound with
  | zero => exact fun c d e hc => absurd hc fail_eq_ok
  | succ bound ih => exact assignment ih (bound + 1)

theorem optionalUpTo (kind : Kind) (bound : Nat) :
    Rule.Sound .optional (Parse.optionalUpTo kind bound) := by
  intro c d value hc
  unfold Parse.optionalUpTo at hc
  obtain ⟨ends, c₁, h₁, hc⟩ := bind_eq_ok.1 hc
  obtain ⟨-, rfl⟩ := sees_eq_ok h₁
  split at hc
  · obtain ⟨rfl, rfl⟩ := pure_eq_ok.1 hc
    exact ⟨[], .refl _, .absent⟩
  · obtain ⟨e, he, rfl⟩ := map_eq_ok.1 hc
    obtain ⟨ts, took, he⟩ := expression bound he
    exact ⟨ts, took, .present he⟩

/-! ## Simple statements

These hold no other statements, so that no fault is recorded inside of them without their failing.
-/

theorem variableDeclared (bound : Nat) :
    Rule.Sound .binding (Parse.variableDeclared bound) := by
  intro c d s hc
  rw [variableDeclared_eq] at hc
  obtain ⟨name, c₁, h₁, hc⟩ := bind_eq_ok.1 hc
  obtain ⟨hn, took₁⟩ := Cursor.Took.of_expect h₁
  obtain ⟨found, c₂, h₂, hc⟩ := bind_eq_ok.1 hc
  obtain ⟨initializer, c₃, h₃, hc⟩ := bind_eq_ok.1 hc
  obtain ⟨semicolon, c₄, h₄, hc⟩ := bind_eq_ok.1 hc
  obtain ⟨hs, took₄⟩ := Cursor.Took.of_expect h₄
  obtain ⟨rfl, rfl⟩ := pure_eq_ok.1 hc
  rcases found with _ | equal
  · obtain ⟨rfl, -⟩ := accept_eq_none h₂
    obtain ⟨rfl, rfl⟩ := pure_eq_ok.1 h₃
    exact ⟨[name, semicolon], took₁.cons took₄, .uninitialized hn hs⟩
  · obtain ⟨heq, took₂⟩ := Cursor.Took.of_accept h₂
    obtain ⟨e, he, rfl⟩ := map_eq_ok.1 h₃
    obtain ⟨ts, took₃, he⟩ := expression bound he
    exact ⟨name :: equal :: ts ++ [semicolon], (took₁.cons (took₂.cons took₃)).trans took₄,
      .initialized hn heq he hs⟩

/-- A list of names has no more members than there is room for. -/
theorem names {tooMany : SyntaxFault} {what : Expected} {room : Nat} {c d : Cursor}
    {names : List Token}
    (hc : separated tooMany (expect .identifier what) room c = .ok names d) :
    names.length ≤ room ∧ ∃ ts, c.Took d ts ∧ Derives true .names ts names := by
  induction room generalizing c d names with
  | zero => exact absurd hc fail_eq_ok
  | succ room ih =>
      unfold separated at hc
      obtain ⟨name, c₁, h₁, hc⟩ := bind_eq_ok.1 hc
      obtain ⟨hn, took₁⟩ := Cursor.Took.of_expect h₁
      obtain ⟨found, c₂, h₂, hc⟩ := bind_eq_ok.1 hc
      rcases found with _ | comma
      · obtain ⟨rfl, -⟩ := accept_eq_none h₂
        obtain ⟨rfl, rfl⟩ := pure_eq_ok.1 hc
        exact ⟨by simp, [name], took₁, .lastName hn⟩
      · obtain ⟨hk, took₂⟩ := Cursor.Took.of_accept h₂
        obtain ⟨others, c₃, h₃, hc⟩ := bind_eq_ok.1 hc
        obtain ⟨hlen, us, took₃, ho⟩ := ih h₃
        obtain ⟨rfl, rfl⟩ := pure_eq_ok.1 hc
        exact ⟨by simpa using hlen, name :: comma :: us, took₁.cons (took₂.cons took₃),
          .nextName hn hk ho⟩

/-- Parameters in parentheses, at most 255. -/
theorem parameters {tooMany : SyntaxFault} {what : Expected} {c d : Cursor} {names : List Token}
    (hc : parenthesized tooMany (expect .identifier what) c = .ok names d) :
    names.length ≤ 255 ∧ ∃ ts, c.Took d ts ∧ Derives true .parameters ts names := by
  unfold parenthesized at hc
  obtain ⟨closes, c₁, h₁, hc⟩ := bind_eq_ok.1 hc
  obtain ⟨-, rfl⟩ := sees_eq_ok h₁
  split at hc
  · obtain ⟨rfl, rfl⟩ := pure_eq_ok.1 hc
    exact ⟨Nat.zero_le _, [], .refl _, .noParameters⟩
  · obtain ⟨hlen, ts, took, hn⟩ := Sound.names hc
    exact ⟨hlen, ts, took, .someParameters hn⟩

/-- The first clause of a `for` loop. -/
theorem forInitializer (bound : Nat) : Rule.Sound .initializer (Parse.forInitializer bound) := by
  intro c d s hc
  unfold Parse.forInitializer at hc
  obtain ⟨found, c₁, h₁, hc⟩ := bind_eq_ok.1 hc
  rcases found with _ | semicolon
  · obtain ⟨rfl, -⟩ := accept_eq_none h₁
    obtain ⟨found, c₂, h₂, hc⟩ := bind_eq_ok.1 hc
    rcases found with _ | keyword
    · obtain ⟨rfl, -⟩ := accept_eq_none h₂
      obtain ⟨s, hs, rfl⟩ := map_eq_ok.1 hc
      obtain ⟨e, c₃, h₃, hs⟩ := bind_eq_ok.1 hs
      obtain ⟨ts, took₃, he⟩ := expression bound h₃
      obtain ⟨semicolon, c₄, h₄, hs⟩ := bind_eq_ok.1 hs
      obtain ⟨hk, took₄⟩ := Cursor.Took.of_expect h₄
      obtain ⟨rfl, rfl⟩ := pure_eq_ok.1 hs
      exact ⟨ts ++ [semicolon], took₃.trans took₄, .expressionInitializer he hk⟩
    · obtain ⟨hk, took₂⟩ := Cursor.Took.of_accept h₂
      obtain ⟨s, hs, rfl⟩ := map_eq_ok.1 hc
      obtain ⟨ts, took₃, hs⟩ := variableDeclared bound hs
      exact ⟨keyword :: ts, took₂.cons took₃, .varInitializer hk hs⟩
  · obtain ⟨hk, took₁⟩ := Cursor.Took.of_accept h₁
    obtain ⟨rfl, rfl⟩ := pure_eq_ok.1 hc
    exact ⟨[semicolon], took₁, .noInitializer hk⟩

end Rule.Sound

/-! ## Statements that hold others

A fault inside a block is recorded and the block goes on, so here the statement is about runs of
a rule on which no fault was recorded.  The bound matters too: a rule without any left gives no
statement.
-/

/-- If the statement just read could take an `else`, none is ahead. -/
def NoElse (opened : Bool) (rest : List Token) : Prop :=
  opened = true → ∀ t ∈ rest.head?, t.kind ≠ .keyword .else_

/-- Where a rule for statements succeeds without a fault, it has read a statement. -/
def SoundStatement (bound : Nat) (rule : Rule Stmt) : Prop :=
  ∀ ⦃c d : Cursor⦄ ⦃s : Stmt⦄, c.rest.length ≤ bound → rule c = .ok s d → d.faults = c.faults →
    ∃ ts opened, c.Took d ts ∧ Derives true (.statement opened) ts s ∧ NoElse opened d.rest

/-- Where a rule for declarations succeeds without a fault, it has read a declaration. -/
def SoundDeclaration (bound : Nat) (rule : Rule (Option Stmt)) : Prop :=
  ∀ ⦃c d : Cursor⦄ ⦃found : Option Stmt⦄, c.rest.length ≤ bound → c.rest ≠ [] →
    rule c = .ok found d → d.faults = c.faults →
    ∃ ts s, found = some s ∧ c.Took d ts ∧ Derives true .declaration ts s

namespace Cursor.Took

/-- A token that was taken leaves one token less. -/
theorem length_le {c d : Cursor} {t : Token} (h : c.Took d [t]) {bound : Nat}
    (hc : c.rest.length ≤ bound + 1) : d.rest.length ≤ bound := by
  rw [h.rest] at hc
  simpa using hc

/-- Whatever was taken, no token has been added. -/
theorem length_le_of_le {c d : Cursor} {ts : List Token} (h : c.Took d ts) {bound : Nat}
    (hc : c.rest.length ≤ bound) : d.rest.length ≤ bound := by
  rw [h.rest, List.length_append] at hc
  omega

end Cursor.Took

section
variable {bound : Nat} {statement : Rule Stmt} {declaration : Rule (Option Stmt)}

/-- The loop over declarations stops only at the end of the tokens or at a brace. -/
theorem sound_declarations (ha : declaration.Advances) (h : SoundDeclaration bound declaration)
    {braced : Bool} {rounds : Nat} {c d : Cursor} {ss : List Stmt}
    (hb : c.rest.length ≤ bound) (hr : c.rest.length ≤ rounds)
    (hc : declarations declaration braced rounds c = .ok ss d) (hf : d.faults = c.faults) :
    ∃ ts, c.Took d ts ∧ Derives true .declarations ts ss ∧
      (d.rest = [] ∨ braced = true ∧ d.kind? = some (.symbol .rightBrace)) := by
  induction rounds generalizing c ss with
  | zero =>
      obtain ⟨rfl, rfl⟩ := pure_eq_ok.1 hc
      exact ⟨[], .refl _, .done, .inl (by simpa using hr)⟩
  | succ rounds ih =>
      unfold declarations at hc
      obtain ⟨atEnd, c₀, h₀, hc⟩ := bind_eq_ok.1 hc
      obtain ⟨rfl, rfl⟩ := ended_eq_ok h₀
      obtain ⟨closes, c₁, h₁, hc⟩ := bind_eq_ok.1 hc
      obtain ⟨hcl, rfl⟩ := sees_eq_ok h₁
      split at hc
      next hend =>
        obtain ⟨rfl, rfl⟩ := pure_eq_ok.1 hc
        refine ⟨[], .refl _, .done, ?_⟩
        rw [hcl] at hend
        simpa using hend
      next hmore =>
        obtain ⟨first, c₂, h₂, hc⟩ := bind_eq_ok.1 hc
        obtain ⟨others, c₃, h₃, hc⟩ := bind_eq_ok.1 hc
        obtain ⟨rfl, rfl⟩ := pure_eq_ok.1 hc
        have hne : c.rest ≠ [] := by
          intro hnil
          simp [hnil] at hmore
        obtain ⟨hf₂, hf₃⟩ := (ha.of_ok h₂).faults_eq
          ((Rule.Advances.declarations ha braced rounds).of_ok h₃) hf
        obtain ⟨ts, s, rfl, took₂, hs⟩ := h hb hne h₂ hf₂
        have hlen := congrArg List.length took₂.rest
        have hpos := List.length_pos_iff.2 (hs.ne_nil rfl)
        rw [List.length_append] at hlen
        obtain ⟨us, took₃, hss, hend⟩ := ih (by omega) (by omega) h₃ hf₃
        exact ⟨ts ++ us, took₂.trans took₃, .next hs hss, hend⟩

/-- The declarations of a block, and its closing brace. -/
theorem sound_block (ha : declaration.Advances) (h : SoundDeclaration bound declaration)
    {rounds : Nat} {c d : Cursor} {body : List Stmt} (hb : c.rest.length ≤ bound)
    (hr : c.rest.length ≤ rounds) (hc : block declaration rounds c = .ok body d)
    (hf : d.faults = c.faults) :
    ∃ ts rbrace, c.Took d (ts ++ [rbrace]) ∧ Derives true .declarations ts body ∧
      rbrace.kind = .symbol .rightBrace := by
  obtain ⟨body', c₁, h₁, hc⟩ := bind_eq_ok.1 hc
  obtain ⟨rbrace, c₂, h₂, hc⟩ := bind_eq_ok.1 hc
  obtain ⟨hk, took₂⟩ := Cursor.Took.of_expect h₂
  obtain ⟨rfl, rfl⟩ := pure_eq_ok.1 hc
  obtain ⟨ts, took₁, hbody, -⟩ :=
    sound_declarations ha h hb hr h₁ (took₂.faults.symm.trans hf)
  exact ⟨ts, rbrace, took₁.trans took₂, hbody, hk⟩

/-! ### The statements one by one

Each is read behind its keyword and given with it.  What a statement can be followed by matters for
`else` only, so it is said of branches and loops. -/

theorem sound_functionDeclared (ha : declaration.Advances)
    (h : SoundDeclaration bound declaration) {keyword : Token} {c d : Cursor} {s : Stmt}
    (hk : keyword.kind = .keyword .fun_) (hb : c.rest.length ≤ bound)
    (hc : functionDeclared declaration (bound + 1) c = .ok s d) (hf : d.faults = c.faults) :
    ∃ ts, c.Took d ts ∧ Derives true .declaration (keyword :: ts) s := by
  obtain ⟨name, c₁, h₁, hc⟩ := bind_eq_ok.1 hc
  obtain ⟨hn, took₁⟩ := Cursor.Took.of_expect h₁
  obtain ⟨lparen, c₂, h₂, hc⟩ := bind_eq_ok.1 hc
  obtain ⟨hl, took₂⟩ := Cursor.Took.of_expect h₂
  obtain ⟨parameters, c₃, h₃, hc⟩ := bind_eq_ok.1 hc
  obtain ⟨hlen, ts, took₃, hp⟩ := Rule.Sound.parameters h₃
  obtain ⟨rparen, c₄, h₄, hc⟩ := bind_eq_ok.1 hc
  obtain ⟨hr, took₄⟩ := Cursor.Took.of_expect h₄
  obtain ⟨lbrace, c₅, h₅, hc⟩ := bind_eq_ok.1 hc
  obtain ⟨hlb, took₅⟩ := Cursor.Took.of_expect h₅
  obtain ⟨body, c₆, h₆, hc⟩ := bind_eq_ok.1 hc
  obtain ⟨rfl, rfl⟩ := pure_eq_ok.1 hc
  have took := (took₁.cons (took₂.cons took₃)).trans (took₄.cons took₅)
  have left := took.length_le_of_le hb
  obtain ⟨us, rbrace, took₆, hbody, hrb⟩ :=
    sound_block ha h left (by omega) h₆ (hf.trans took.faults.symm)
  refine ⟨_, took.trans took₆, ?_⟩
  simpa using Derives.function hk hn hl hp hlen hr hlb hbody hrb

/-- An `if`: the `else` that is ahead was taken, so none is ahead behind it if it has none. -/
theorem sound_branching (ha : statement.Advances) (h : SoundStatement bound statement)
    {keyword : Token} {c d : Cursor} {s : Stmt} (hk : keyword.kind = .keyword .if_)
    (hb : c.rest.length ≤ bound) (hc : branching statement (bound + 1) c = .ok s d)
    (hf : d.faults = c.faults) :
    ∃ ts opened, c.Took d ts ∧ Derives true (.statement opened) (keyword :: ts) s ∧
      NoElse opened d.rest := by
  unfold branching at hc
  obtain ⟨lparen, c₁, h₁, hc⟩ := bind_eq_ok.1 hc
  obtain ⟨hl, took₁⟩ := Cursor.Took.of_expect h₁
  obtain ⟨condition, c₂, h₂, hc⟩ := bind_eq_ok.1 hc
  obtain ⟨ts, took₂, hcond⟩ := Rule.Sound.expression _ h₂
  obtain ⟨rparen, c₃, h₃, hc⟩ := bind_eq_ok.1 hc
  obtain ⟨hr, took₃⟩ := Cursor.Took.of_expect h₃
  obtain ⟨yes, c₄, h₄, hc⟩ := bind_eq_ok.1 hc
  obtain ⟨found, c₅, h₅, hc⟩ := bind_eq_ok.1 hc
  have took := (took₁.cons took₂).trans took₃
  have left := took.length_le_of_le hb
  rcases found with _ | otherwise
  · obtain ⟨rfl, noElse⟩ := accept_eq_none h₅
    obtain ⟨rfl, rfl⟩ := pure_eq_ok.1 hc
    obtain ⟨us, opened, took₄, hyes, -⟩ := h left h₄ (hf.trans took.faults.symm)
    refine ⟨_, true, took.trans took₄, ?_, fun _ => noElse⟩
    simpa using Derives.ifOnly hk hl hcond hr hyes
  · obtain ⟨ho, took₅⟩ := Cursor.Took.of_accept h₅
    obtain ⟨no, c₆, h₆, hc⟩ := bind_eq_ok.1 hc
    obtain ⟨rfl, rfl⟩ := pure_eq_ok.1 hc
    have before₅ : c₄.Before c₅ := Rule.Advances.accept.of_ok h₅
    obtain ⟨hf₄, hf₆⟩ := (ha.of_ok h₄).faults_eq (before₅.trans (ha.of_ok h₆))
      (hf.trans took.faults.symm)
    obtain ⟨us, opened, took₄, hyes, noElse⟩ := h left h₄ hf₄
    have left' := (took₄.trans took₅).length_le_of_le left
    obtain ⟨vs, opened', took₆, hno, noElse'⟩ := h left' h₆ (hf₆.trans took₅.faults.symm)
    -- the `else` just read shows that the first branch could not take it
    have closed : opened = false := by
      cases opened with
      | false => rfl
      | true => exact absurd ho (noElse rfl otherwise (by rw [took₅.rest]; rfl))
    refine ⟨_, opened', (took.trans took₄).trans (took₅.cons took₆), ?_, noElse'⟩
    simpa using Derives.ifElse hk hl hcond hr hyes (fun _ => closed) ho hno

/-- A `while` loop is open where its body is. -/
theorem sound_looping (h : SoundStatement bound statement) {keyword : Token} {c d : Cursor}
    {s : Stmt} (hk : keyword.kind = .keyword .while_) (hb : c.rest.length ≤ bound)
    (hc : looping statement (bound + 1) c = .ok s d) (hf : d.faults = c.faults) :
    ∃ ts opened, c.Took d ts ∧ Derives true (.statement opened) (keyword :: ts) s ∧
      NoElse opened d.rest := by
  obtain ⟨lparen, c₁, h₁, hc⟩ := bind_eq_ok.1 hc
  obtain ⟨hl, took₁⟩ := Cursor.Took.of_expect h₁
  obtain ⟨condition, c₂, h₂, hc⟩ := bind_eq_ok.1 hc
  obtain ⟨ts, took₂, hcond⟩ := Rule.Sound.expression _ h₂
  obtain ⟨rparen, c₃, h₃, hc⟩ := bind_eq_ok.1 hc
  obtain ⟨hr, took₃⟩ := Cursor.Took.of_expect h₃
  obtain ⟨body, c₄, h₄, hc⟩ := bind_eq_ok.1 hc
  obtain ⟨rfl, rfl⟩ := pure_eq_ok.1 hc
  have took := (took₁.cons took₂).trans took₃
  obtain ⟨us, opened, took₄, hbody, noElse⟩ :=
    h (took.length_le_of_le hb) h₄ (hf.trans took.faults.symm)
  refine ⟨_, opened, took.trans took₄, ?_, noElse⟩
  simpa using Derives.loop hk hl hcond hr hbody

/-- A `for` loop is open where its body is, and its tree is the one the grammar gives it. -/
theorem sound_counting (h : SoundStatement bound statement) {keyword : Token} {c d : Cursor}
    {s : Stmt} (hk : keyword.kind = .keyword .for_) (hb : c.rest.length ≤ bound)
    (hc : counting statement (bound + 1) c = .ok s d) (hf : d.faults = c.faults) :
    ∃ ts opened, c.Took d ts ∧ Derives true (.statement opened) (keyword :: ts) s ∧
      NoElse opened d.rest := by
  obtain ⟨lparen, c₁, h₁, hc⟩ := bind_eq_ok.1 hc
  obtain ⟨hl, took₁⟩ := Cursor.Took.of_expect h₁
  obtain ⟨initializer, c₂, h₂, hc⟩ := bind_eq_ok.1 hc
  obtain ⟨ts, took₂, hi⟩ := Rule.Sound.forInitializer _ h₂
  obtain ⟨condition, c₃, h₃, hc⟩ := bind_eq_ok.1 hc
  obtain ⟨us, took₃, hcond⟩ := Rule.Sound.optionalUpTo _ _ h₃
  obtain ⟨semicolon, c₄, h₄, hc⟩ := bind_eq_ok.1 hc
  obtain ⟨hs, took₄⟩ := Cursor.Took.of_expect h₄
  obtain ⟨increment, c₅, h₅, hc⟩ := bind_eq_ok.1 hc
  obtain ⟨vs, took₅, hincr⟩ := Rule.Sound.optionalUpTo _ _ h₅
  obtain ⟨rparen, c₆, h₆, hc⟩ := bind_eq_ok.1 hc
  obtain ⟨hr, took₆⟩ := Cursor.Took.of_expect h₆
  obtain ⟨body, c₇, h₇, hc⟩ := bind_eq_ok.1 hc
  obtain ⟨rfl, rfl⟩ := pure_eq_ok.1 hc
  have took := ((took₁.cons took₂).trans took₃).trans (took₄.cons (took₅.trans took₆))
  obtain ⟨ws, opened, took₇, hbody, noElse⟩ :=
    h (took.length_le_of_le hb) h₇ (hf.trans took.faults.symm)
  refine ⟨_, opened, took.trans took₇, ?_, noElse⟩
  rw [forLoop_eq_asWhile]
  simpa using Derives.forLoop hk hl hi hcond hs hincr hr hbody

/-- The last of the statements, an expression, needs no keyword. -/
theorem sound_statementOf (ha : statement.Advances) (h : SoundStatement bound statement)
    (ha' : declaration.Advances) (h' : SoundDeclaration bound declaration) :
    SoundStatement (bound + 1) (statementOf statement declaration (bound + 1)) := by
  intro c d s hb hc hf
  rw [statementOf_eq] at hc
  rcases Cursor.Took.of_ifNext hc with ⟨keyword, c₁, hk, took, hc⟩ | hc
  · -- a loop with clauses
    obtain ⟨ts, opened, took', hs, noElse⟩ :=
      sound_counting h hk (took.length_le hb) hc (hf.trans took.faults.symm)
    exact ⟨_, opened, took.cons took', hs, noElse⟩
  rcases Cursor.Took.of_ifNext hc with ⟨keyword, c₁, hk, took, hc⟩ | hc
  · -- a branch
    obtain ⟨ts, opened, took', hs, noElse⟩ :=
      sound_branching ha h hk (took.length_le hb) hc (hf.trans took.faults.symm)
    exact ⟨_, opened, took.cons took', hs, noElse⟩
  rcases Cursor.Took.of_ifNext hc with ⟨keyword, c₁, hk, took, hc⟩ | hc
  · -- a loop with a condition only
    obtain ⟨ts, opened, took', hs, noElse⟩ :=
      sound_looping h hk (took.length_le hb) hc (hf.trans took.faults.symm)
    exact ⟨_, opened, took.cons took', hs, noElse⟩
  rcases Cursor.Took.of_ifNext hc with ⟨keyword, c₁, hk, took, hc⟩ | hc
  · -- a return
    rw [returned_eq] at hc
    obtain ⟨value, c₂, h₂, hc⟩ := bind_eq_ok.1 hc
    obtain ⟨ts, took₂, hv⟩ := Rule.Sound.optionalUpTo _ _ h₂
    obtain ⟨semicolon, c₃, h₃, hc⟩ := bind_eq_ok.1 hc
    obtain ⟨hs, took₃⟩ := Cursor.Took.of_expect h₃
    obtain ⟨rfl, rfl⟩ := pure_eq_ok.1 hc
    exact ⟨_, false, (took.cons took₂).trans took₃, .ret hk hv hs, by simp [NoElse]⟩
  rcases Cursor.Took.of_ifNext hc with ⟨keyword, c₁, hk, took, hc⟩ | hc
  · -- a print
    obtain ⟨e, c₂, h₂, hc⟩ := bind_eq_ok.1 hc
    obtain ⟨ts, took₂, he⟩ := Rule.Sound.expression _ h₂
    obtain ⟨semicolon, c₃, h₃, hc⟩ := bind_eq_ok.1 hc
    obtain ⟨hs, took₃⟩ := Cursor.Took.of_expect h₃
    obtain ⟨rfl, rfl⟩ := pure_eq_ok.1 hc
    exact ⟨_, false, (took.cons took₂).trans took₃, .print hk he hs, by simp [NoElse]⟩
  rcases Cursor.Took.of_ifNext hc with ⟨lbrace, c₁, hl, took, hc⟩ | hc
  · -- a block
    obtain ⟨body, hbody, rfl⟩ := map_eq_ok.1 hc
    have left := took.length_le hb
    obtain ⟨ts, rbrace, took₂, hbody, hr⟩ :=
      sound_block ha' h' left (by omega) hbody (hf.trans took.faults.symm)
    exact ⟨_, false, took.cons took₂, .block hl hbody hr, by simp [NoElse]⟩
  · -- an expression
    obtain ⟨e, c₁, h₁, hc⟩ := bind_eq_ok.1 hc
    obtain ⟨ts, took₁, he⟩ := Rule.Sound.expression _ h₁
    obtain ⟨semicolon, c₂, h₂, hc⟩ := bind_eq_ok.1 hc
    obtain ⟨hs, took₂⟩ := Cursor.Took.of_expect h₂
    obtain ⟨rfl, rfl⟩ := pure_eq_ok.1 hc
    exact ⟨_, false, took₁.trans took₂, .expression he hs, by simp [NoElse]⟩

theorem sound_classDeclared {keyword : Token} {c d : Cursor} {s : Stmt}
    (hk : keyword.kind = .keyword .class_) (hc : classDeclared c = .ok s d) :
    ∃ ts, c.Took d ts ∧ Derives true .declaration (keyword :: ts) s := by
  obtain ⟨name, c₁, h₁, hc⟩ := bind_eq_ok.1 hc
  obtain ⟨hn, took₁⟩ := Cursor.Took.of_expect h₁
  obtain ⟨lbrace, c₂, h₂, hc⟩ := bind_eq_ok.1 hc
  obtain ⟨hl, took₂⟩ := Cursor.Took.of_expect h₂
  obtain ⟨found, c₃, h₃, hc⟩ := bind_eq_ok.1 hc
  rcases found with _ | rbrace
  · exact absurd hc fail_eq_ok
  · obtain ⟨hr, took₃⟩ := Cursor.Took.of_accept h₃
    obtain ⟨rfl, rfl⟩ := pure_eq_ok.1 hc
    exact ⟨_, took₁.cons (took₂.cons took₃), .cls hk hn hl hr⟩

/-- A declaration, by its keyword. -/
theorem sound_declarationOf (ha : statement.Advances) (h : SoundStatement bound statement)
    (ha' : declaration.Advances) (h' : SoundDeclaration bound declaration) :
    SoundDeclaration (bound + 1) (declarationOf statement declaration (bound + 1)) := by
  intro c d found hb _ hc hf
  rcases found with _ | s
  · -- the fault that cost the statement was recorded after all
    obtain ⟨fault, e, he, rfl⟩ := recovering_eq_none hc
    have before := (Rule.Advances.declared ha ha' (bound + 1)).of_error he
    have le := before.faults.length_le
    have same := congrArg Array.size hf
    rw [Array.size_push] at same
    simp only [Array.length_toList] at le
    omega
  · have hc := recovering_eq_some hc
    rw [declared_eq] at hc
    rcases Cursor.Took.of_ifNext hc with ⟨keyword, c₁, hk, took, hc⟩ | hc
    · obtain ⟨ts, took', hs⟩ := sound_classDeclared hk hc
      exact ⟨_, s, rfl, took.cons took', hs⟩
    rcases Cursor.Took.of_ifNext hc with ⟨keyword, c₁, hk, took, hc⟩ | hc
    · obtain ⟨ts, took', hs⟩ :=
        sound_functionDeclared ha' h' hk (took.length_le hb) hc (hf.trans took.faults.symm)
      exact ⟨_, s, rfl, took.cons took', hs⟩
    rcases Cursor.Took.of_ifNext hc with ⟨keyword, c₁, hk, took, hc⟩ | hc
    · obtain ⟨ts, took', hs⟩ := Rule.Sound.variableDeclared _ hc
      exact ⟨_, s, rfl, took.cons took', .var hk hs⟩
    · obtain ⟨ts, opened, took, hs, -⟩ := sound_statementOf ha h ha' h' hb hc hf
      exact ⟨ts, s, rfl, took, .statement hs⟩

end

/-- What statements and declarations of any depth read. -/
theorem sound_statement_declaration (bound : Nat) :
    SoundStatement bound (statement bound) ∧ SoundDeclaration bound (declaration bound) := by
  induction bound with
  | zero =>
      refine ⟨fun c d s _ hc => absurd hc fail_eq_ok, fun c d found hb hne => ?_⟩
      exact absurd (List.eq_nil_of_length_eq_zero (Nat.le_zero.1 hb)) hne
  | succ bound ih =>
      obtain ⟨ha, ha'⟩ := Rule.Advances.statement_declaration bound
      exact ⟨sound_statementOf ha ih.1 ha' ih.2, sound_declarationOf ha ih.1 ha' ih.2⟩

/-- A program that is read without a fault is derivable from all of its tokens. -/
theorem sound_program {bound : Nat} {c d : Cursor} {ss : List Stmt}
    (hb : c.rest.length ≤ bound) (hc : program bound c = .ok ss d) (hf : d.faults = c.faults) :
    d.rest = [] ∧ Derives true .declarations c.rest ss := by
  obtain ⟨ts, took, hss, hend⟩ :=
    sound_declarations (Rule.Advances.statement_declaration bound).2
      (sound_statement_declaration bound).2 hb hb hc hf
  rcases hend with hend | ⟨hbraced, -⟩
  · refine ⟨hend, ?_⟩
    rw [took.rest, hend, List.append_nil]
    exact hss
  · exact absurd hbraced Bool.false_ne_true

end Lox.Parse
