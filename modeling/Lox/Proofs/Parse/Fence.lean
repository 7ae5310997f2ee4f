import Lox.Proofs.Parse.Abreast.Statement

/-!
# Up to a semicolon

A statement without braces is read twice: on one side the program ends behind its semicolon, on the
other anything follows.  Up to the semicolon the two sides are abreast.  A semicolon is only taken
where a statement is complete, so what is found wrong on the first side is found wrong on the other,
before either has taken the semicolon.

A brace opens a block that could hold any statements, so this is about statements without braces,
between which a semicolon is the only thing that ends one.  The property is about faults only: if
the rule fails on the first side, it fails in the same way on the other, where the tokens go on
behind the semicolon, and the semicolon has not been taken.  From it follows that recovery, which
skips to the semicolon, comes to the same place on both sides.

* `Fence` — a semicolon and what stands behind it on the second side.
* `Fence.Before` — cursors that are before the semicolon, at the same token.
* `Fence.Contains` — the fault of a rule, if it finds one, does not lie behind the semicolon.
* `Fence.declared` — the rules of declarations have this property.
-/

namespace Lox.Parse

/-! ## What a declaration begins with

A declaration is recognized by its first token, and there is one. -/

/-- The rule that a declaration goes on with behind its first token, if that is not part of an
expression. -/
def opening (statement : Rule Stmt) (declaration : Rule (Option Stmt)) (bound : Nat) (t : Token) :
    Option (Rule Stmt) :=
  match t.kind with
  | .keyword .class_ => some classDeclared
  | .keyword .fun_ => some (functionDeclared declaration bound)
  | .keyword .var => some (variableDeclared bound)
  | .keyword .for_ => some (counting statement bound)
  | .keyword .if_ => some (branching statement bound)
  | .keyword .while_ => some (looping statement bound)
  | .keyword .return_ => some (returned bound t)
  | .keyword .print => some (printed bound)
  | .symbol .leftBrace => some (.block <$> block declaration bound)
  | _ => none

section
variable {s : Rule Stmt} {x : Rule (Option Stmt)} {b : Nat} {c : Cursor} {t : Token}
  {rest : List Token}

/-- A look at a token that is known. -/
theorem take_bind {α : Type} {kind : Kind} {f : Option Token → Rule α} (h : c.rest = t :: rest) :
    (take kind >>= f) c = if t.kind = kind then f (some t) { c with rest } else f none c := by
  simp only [take, takeAny, Reader.seen, Cursor.seen, Reader.advance, h, List.tail_cons,
    List.mem_singleton, Bind.bind, EStateM.bind]
  by_cases hk : t.kind = kind
  · simp only [if_pos hk]
  · simp only [if_neg hk]

/-- A token that has to be there, where one is known. -/
theorem expect_cons {kind : Kind} {what : Expected} (h : c.rest = t :: rest) :
    expect kind what c =
      if t.kind = kind then .ok t { c with rest } else .error (t.line, .expected what) c := by
  unfold expect
  by_cases hk : t.kind = kind
  · rw [if_pos hk]
    exact bind_ok ((acceptAny_cons h).trans (if_pos (List.mem_singleton.2 hk)))
  · rw [if_neg hk]
    refine (bind_ok ((acceptAny_cons h).trans (if_neg (mt List.mem_singleton.1 hk)))).trans ?_
    simp only [fail, Reader.seen, Cursor.seen, h]

/-- The first token of a declaration decides how it is read. -/
theorem declared_cons (h : c.rest = t :: rest) : declared s x b c =
    match opening s x b t with
    | some rule => rule { c with rest }
    | none => expressionStatement b c := by
  simp only [declared, statementOf, take_bind h, opening]
  cases hk : t.kind with
  | keyword k => cases k <;> simp
  | symbol k => cases k <;> simp
  | _ => simp

/-- What is no opening token begins an expression, also where no declaration may stand. -/
theorem statement_cons (h : c.rest = t :: rest)
    (none : opening (statement b) (declaration b) (b + 1) t = none) :
    statement (b + 1) c = expressionStatement (b + 1) c := by
  simp only [opening] at none
  simp only [statement, statementOf, take_bind h]
  cases hk : t.kind with
  | keyword k => cases k <;> simp_all
  | symbol k => cases k <;> simp_all
  | _ => simp

end

/-! ## The two sides

Before the semicolon both show the same tokens. -/

/-- Whether a token can stand in a statement without braces behind the first token: it ends no
statement and opens none. -/
def isPlain (t : Token) : Bool :=
  t.kind != .eof && t.kind != .symbol .semicolon && t.kind != .symbol .leftBrace &&
    t.kind != .symbol .rightBrace && !opensStatement t.kind

/-- What a statement without braces can begin with, besides what it can go on with. -/
def leadingKinds : List Kind :=
  [.keyword .print, .keyword .var, .keyword .return_, .keyword .if_, .keyword .while_,
    .keyword .class_, .keyword .fun_]

/-- A semicolon, what stands behind it on the second side, and what was recorded before it. -/
structure Fence where
  semicolon : Token
  isSemicolon : semicolon.kind = .symbol .semicolon
  /-- What stands behind the semicolon on the second side; on the first side nothing does. -/
  behind : List Token
  /-- The line of the end on the second side. -/
  line : Nat
  /-- The faults recorded on the second side. -/
  faults : Array Fault
  /-- The faults recorded on the first side. -/
  faults' : Array Fault

namespace Fence

variable {fence : Fence} {α β γ δ : Type}

/-- Both sides have the same `n` plain tokens ahead, then the semicolon. -/
structure Before (fence : Fence) (n : Nat) (c d : Cursor) : Prop where
  rest : ∃ ts, (∀ t ∈ ts, isPlain t = true) ∧ ts.length = n ∧
    c.rest = ts ++ fence.semicolon :: fence.behind ∧ d.rest = ts ++ [fence.semicolon]
  line : c.endLine = fence.line
  faults : c.faults = fence.faults
  faults' : d.faults = fence.faults'

variable {n : Nat} {c d : Cursor}

/-- There is always a token in view: a plain one or the semicolon. -/
theorem Before.cons (h : fence.Before n c d) : ∃ t rest rest', c.rest = t :: rest ∧
    d.rest = t :: rest' ∧ (isPlain t = true ∨ t = fence.semicolon) := by
  obtain ⟨ts, plain, -, hc, hd⟩ := h.rest
  cases ts with
  | nil => exact ⟨_, _, _, hc, hd, .inr rfl⟩
  | cons t ts => exact ⟨_, _, _, hc, hd, .inl (plain t List.mem_cons_self)⟩

/-- Before the semicolon there is nothing but expressions. -/
theorem Before.opening (h : fence.Before n c d) : ∃ t rest rest', c.rest = t :: rest ∧
    d.rest = t :: rest' ∧ ∀ s x b, opening s x b t = none := by
  obtain ⟨t, rest, rest', hc, hd, ht⟩ := h.cons
  refine ⟨t, rest, rest', hc, hd, fun s x b => ?_⟩
  rcases ht with plain | rfl
  · simp only [isPlain, Bool.and_eq_true, bne_iff_ne, ne_eq] at plain
    cases hk : t.kind with
    | keyword k => cases k <;> simp_all [Parse.opening, opensStatement]
    | symbol k => cases k <;> simp_all [Parse.opening]
    | _ => simp [Parse.opening, hk]
  · simp only [Parse.opening, fence.isSemicolon]

/-- Before the semicolon a reader is not at the end. -/
theorem Before.idle (h : fence.Before n c d) {kinds : List Kind} : Idle kinds c := by
  obtain ⟨t, rest, _, hc, -⟩ := h.cons
  intro hend
  rw [List.isEmpty_iff.1 hend] at hc
  exact absurd hc.symm (List.cons_ne_nil t rest)

theorem paced : Paced false (fun _ => 0) fence.Before where
  atEnd h := by
    obtain ⟨_, _, _, hc, hd, -⟩ := h.cons
    simp only [Reader.atEnd, hc, hd, List.isEmpty_cons]
  seen h hd := by
    obtain ⟨_, _, _, hc, hd', -⟩ := h.cons
    simp only [Reader.seen, Cursor.seen, hc, (List.cons.inj (hd.symm.trans hd')).1]
  line h := by
    obtain ⟨_, _, _, hc, hd, -⟩ := h.cons
    simp only [Reader.seen, Cursor.seen, hc, hd]
  advance {n c d t rest} h hd other := by
    obtain ⟨ts, plain, hn, hc, hd'⟩ := h.rest
    rw [hd] at hd'
    cases ts with
    | nil =>
        rw [List.nil_append] at hd'
        exact absurd ((List.cons.inj hd').1 ▸ fence.isSemicolon) (other.resolve_left Bool.false_ne_true)
    | cons t' ts =>
        obtain ⟨rfl, rfl⟩ := List.cons.inj hd'
        have moved : fence.Before ts.length (Reader.advance c)
            { d with rest := ts ++ [fence.semicolon] } := by
          refine ⟨⟨ts, fun t ht => plain t (List.mem_cons_of_mem _ ht), rfl, ?_, rfl⟩, h.line,
            h.faults, h.faults'⟩
          show c.rest.tail = _
          rw [hc, List.cons_append, List.tail_cons]
        exact ⟨⟨_, hn ▸ Nat.lt_succ_self _, moved⟩, fun _ _ _ => moved.idle⟩
  mint h := ⟨rfl, h.rest, h.line, h.faults, h.faults'⟩

/-- Any kind but the semicolon is taken on both sides, and both are still before it. -/
theorem expect {kind : Kind} {what : Expected} (other : kind ≠ .symbol .semicolon)
    (h : fence.Before n c d) :
    Abreast fence.Before n (expect kind what) (Parse.expect kind what)
      (fun t t' m _ => t = t' ∧ m < n) c d := by
  rw [← bind_pure (Parse.expect kind what)]
  exact paced.expect_bind h (.inr other) fun _ lt hR _ => .pure hR ⟨rfl, lt⟩

theorem accept {kind : Kind} (other : kind ≠ .symbol .semicolon) (h : fence.Before n c d) :
    Abreast fence.Before n (accept kind) (Parse.accept kind)
      (fun t t' m _ => t = t' ∧ (t.isSome → m < n)) c d := by
  rw [← bind_pure (Parse.accept kind)]
  exact paced.accept_bind h (.inr other) (fun _ lt hR _ => .pure hR ⟨rfl, fun _ => lt⟩)
    (.pure h ⟨rfl, nofun⟩)

/-! ## The faults of a statement

Where the first side finds a fault, so does the other, in the same place. -/

/-- If the first side is read without a fault, it is read to its end and nothing was recorded.
Otherwise the other side has the same fault, and neither side has taken the semicolon. -/
def Contains (fence : Fence) (x : Rule α) (y : Rule β) (c d : Cursor) : Prop :=
  match y d with
  | .ok _ d' => d'.rest = [] ∧ d'.faults = fence.faults'
  | .error fault d' => ∃ c' n, x c = .error fault c' ∧ fence.Before n c' d'

namespace Contains

variable {x : Rule α} {y : Rule β}

/-- A part before the semicolon comes first. -/
theorem bind {Q : α → β → Nat → Cursor → Prop} {f : α → Rule γ} {g : β → Rule δ}
    (h : Abreast fence.Before n x y Q c d)
    (hf : ∀ {a b m c' d'}, m ≤ n → fence.Before m c' d' → Q a b m c' →
      fence.Contains (f a) (g b) c' d') :
    fence.Contains (x >>= f) (y >>= g) c d := by
  unfold Abreast at h
  unfold Contains at hf ⊢
  cases hx : x c with
  | error e c' =>
      cases hy : y d with
      | error e' d' =>
          simp only [hx, hy] at h
          obtain ⟨rfl, m, -, before⟩ := h
          rw [bind_error hx, bind_error hy]
          exact ⟨c', m, rfl, before⟩
      | ok b d' => simp only [hx, hy] at h
  | ok a c' =>
      cases hy : y d with
      | error e' d' => simp only [hx, hy] at h
      | ok b d' =>
          simp only [hx, hy] at h
          obtain ⟨m, le, before, hQ⟩ := h
          rw [bind_ok hx, bind_ok hy]
          exact hf le before hQ

/-- The part with the semicolon comes first, and what follows it finds no fault at the end. -/
theorem bind_ended {f : α → Rule γ} {g : β → Rule δ} (h : fence.Contains x y c d)
    (hg : ∀ {b d'}, d'.rest = [] → ∃ b', g b d' = .ok b' d') :
    fence.Contains (x >>= f) (y >>= g) c d := by
  unfold Contains at h ⊢
  cases hy : y d with
  | ok b d' =>
      simp only [hy] at h
      obtain ⟨b', hb⟩ := hg (b := b) h.1
      rw [bind_ok hy, hb]
      exact h
  | error e d' =>
      simp only [hy] at h
      obtain ⟨c', m, hx, before⟩ := h
      rw [bind_error hy, bind_error hx]
      exact ⟨c', m, rfl, before⟩

/-- A token that has to be there, and what follows. -/
theorem expect_bind {kind : Kind} {what : Expected} {f : Token → Rule γ} {g : Token → Rule δ}
    (other : kind ≠ .symbol .semicolon) (h : fence.Before n c d)
    (next : ∀ {t m c' d'}, m < n → fence.Before m c' d' → fence.Contains (f t) (g t) c' d') :
    fence.Contains (Parse.expect kind what >>= f) (Parse.expect kind what >>= g) c d := by
  refine .bind (expect other h) fun _ before hQ => ?_
  obtain ⟨rfl, lt⟩ := hQ
  exact next lt before

/-- There is no brace before the semicolon. -/
theorem brace {what : Expected} {f : Token → Rule γ} {g : Token → Rule δ} (h : fence.Before n c d) :
    fence.Contains (Parse.expect (.symbol .leftBrace) what >>= f)
      (Parse.expect (.symbol .leftBrace) what >>= g) c d := by
  obtain ⟨t, rest, rest', hc, hd, ht⟩ := h.cons
  have other : t.kind ≠ .symbol .leftBrace := by
    rcases ht with plain | rfl
    · simp only [isPlain, Bool.and_eq_true, bne_iff_ne, ne_eq] at plain
      exact plain.1.1.2
    · rw [fence.isSemicolon]
      decide
  unfold Contains
  rw [bind_error ((expect_cons hc).trans (if_neg other)),
    bind_error ((expect_cons hd).trans (if_neg other))]
  exact ⟨c, n, rfl, h⟩

/-- At the semicolon a statement is complete. -/
theorem semicolon {what : Expected} {a : α} {b : β} (h : fence.Before n c d) :
    fence.Contains (do let _ ← Parse.expect (.symbol .semicolon) what; return a)
      (do let _ ← Parse.expect (.symbol .semicolon) what; return b) c d := by
  obtain ⟨ts, plain, hn, hc, hd⟩ := h.rest
  unfold Contains
  cases ts with
  | nil =>
      rw [bind_ok ((expect_cons hd).trans (if_pos fence.isSemicolon))]
      exact ⟨rfl, h.faults'⟩
  | cons t ts =>
      have other : t.kind ≠ .symbol .semicolon := by
        have plain := plain t List.mem_cons_self
        simp only [isPlain, Bool.and_eq_true, bne_iff_ne, ne_eq] at plain
        exact plain.1.1.1.2
      rw [bind_error ((expect_cons hc).trans (if_neg other)),
        bind_error ((expect_cons hd).trans (if_neg other))]
      exact ⟨c, n, rfl, h⟩

end Contains

/-! ## Statements without braces

One lemma for each kind. -/

section
variable {b b' : Nat} (enough : Enough b b' n)
include enough

/-- An expression ends with the semicolon. -/
theorem expressionStatement (h : fence.Before n c d) :
    fence.Contains (Parse.expressionStatement b) (Parse.expressionStatement b') c d :=
  .bind (paced.expression enough (Nat.le_refl n) h h.idle) fun _ before _ => .semicolon before

theorem printed (h : fence.Before n c d) :
    fence.Contains (Parse.printed b) (Parse.printed b') c d :=
  .bind (paced.expression enough (Nat.le_refl n) h h.idle) fun _ before _ => .semicolon before

theorem returned (keyword : Token) (h : fence.Before n c d) :
    fence.Contains (Parse.returned b keyword) (Parse.returned b' keyword) c d := by
  rw [returned_eq, returned_eq]
  exact .bind (paced.optionalUpTo enough _ h h.idle) fun _ before _ => .semicolon before

theorem variableDeclared (h : fence.Before n c d) :
    fence.Contains (Parse.variableDeclared b) (Parse.variableDeclared b') c d := by
  rw [variableDeclared_eq, variableDeclared_eq]
  refine .expect_bind nofun h fun lt before => ?_
  refine .bind (accept nofun before) fun {found found' m c' d'} le before' hfound => ?_
  obtain ⟨rfl, -⟩ := hfound
  have enough := enough.mono (Nat.le_trans le (Nat.le_of_lt lt))
  cases found with
  | none =>
      exact .bind (Abreast.pure (Q := fun _ _ _ _ => True) before' trivial)
        fun _ before _ => .semicolon before
  | some t =>
      exact .bind ((paced.expression enough (Nat.le_refl m) before' before'.idle).map
        (P := fun _ _ _ _ => True) fun _ _ => trivial) fun _ before _ => .semicolon before

end

/-- A class has braces, which are not there. -/
theorem classDeclared (h : fence.Before n c d) :
    fence.Contains Parse.classDeclared Parse.classDeclared c d :=
  .expect_bind nofun h fun _ before => .brace before

theorem functionDeclared {x y : Rule (Option Stmt)} {b b' : Nat} (h : fence.Before n c d) :
    fence.Contains (Parse.functionDeclared x b) (Parse.functionDeclared y b') c d := by
  refine .expect_bind nofun h fun _ before => ?_
  refine .expect_bind nofun before fun _ before => ?_
  refine .bind (paced.parenthesized (g := id) (fun _ hR _ => ?_) before before.idle)
    fun _ before _ => ?_
  · exact Abreast.mono (expect (by decide) hR) fun _ hQ => hQ.1
  · exact .expect_bind nofun before fun _ before => .brace before

/-- What stands before the semicolon is, as a statement, one of an expression. -/
theorem statement {b b' : Nat} (enough : Enough b b' n) (h : fence.Before n c d) :
    fence.Contains (Parse.statement b) (Parse.statement b') c d := by
  obtain ⟨t, rest, rest', hc, hd, none⟩ := h.opening
  have read := expressionStatement enough h
  obtain ⟨b, rfl⟩ := Nat.exists_eq_add_one_of_ne_zero (Nat.ne_zero_of_lt enough.1)
  obtain ⟨b', rfl⟩ := Nat.exists_eq_add_one_of_ne_zero (Nat.ne_zero_of_lt enough.2)
  unfold Contains at read ⊢
  rw [statement_cons hc (none _ _ _), statement_cons hd (none _ _ _)]
  exact read

section
variable {b b' : Nat} (enough : Enough b b' n)
include enough

/-- A condition and the statement it is about; what comes after that finds no fault at the end. -/
theorem conditioned {what what' : Expected} {f : Expr → Stmt → Rule γ} {g : Expr → Stmt → Rule δ}
    (hg : ∀ {e s d'}, d'.rest = [] → ∃ b, g e s d' = .ok b d') (h : fence.Before n c d) :
    fence.Contains
      (do
        let _ ← Parse.expect (.symbol .leftParen) what
        let e ← expression (b + 1)
        let _ ← Parse.expect (.symbol .rightParen) what'
        let s ← Parse.statement b
        f e s)
      (do
        let _ ← Parse.expect (.symbol .leftParen) what
        let e ← expression (b' + 1)
        let _ ← Parse.expect (.symbol .rightParen) what'
        let s ← Parse.statement b'
        g e s) c d := by
  refine .expect_bind nofun h fun lt before => ?_
  have more : Enough (b + 1) (b' + 1) _ :=
    ⟨Nat.lt_succ_of_lt (Nat.lt_trans lt enough.1), Nat.lt_succ_of_lt (Nat.lt_trans lt enough.2)⟩
  refine .bind (paced.expression more (Nat.le_refl _) before before.idle) fun le before _ => ?_
  refine .expect_bind nofun before fun lt' before => ?_
  have le := Nat.le_trans (Nat.le_of_lt lt') (Nat.le_trans le (Nat.le_of_lt lt))
  exact (statement (enough.mono le) before).bind_ended hg

/-- The branches of an `if` are statements without braces. -/
theorem branching (h : fence.Before n c d) : fence.Contains
    (Parse.branching (Parse.statement b) (b + 1)) (Parse.branching (Parse.statement b') (b' + 1))
      c d :=
  -- At the end there is no `else`.
  conditioned enough (fun ended => ⟨_, bind_ok (acceptAny_nil ended)⟩) h

theorem looping (h : fence.Before n c d) : fence.Contains
    (Parse.looping (Parse.statement b) (b + 1)) (Parse.looping (Parse.statement b') (b' + 1))
      c d :=
  conditioned enough (fun _ => ⟨_, rfl⟩) h

end

/-- **The fault of a declaration without braces does not lie behind its semicolon.** -/
theorem declared {first : Option Token} (leading : ∀ t ∈ first, t.kind ∈ leadingKinds) {b b' : Nat}
    (enough : Enough b b' n) {c' d' : Cursor} (h : fence.Before n c d)
    (hc : c' = { c with rest := first.toList ++ c.rest })
    (hd : d' = { d with rest := first.toList ++ d.rest }) :
    fence.Contains (Parse.declared (Parse.statement b) (declaration b) (b + 1))
      (Parse.declared (Parse.statement b') (declaration b') (b' + 1)) c' d' := by
  have more : Enough (b + 1) (b' + 1) n := ⟨Nat.lt_succ_of_lt enough.1, Nat.lt_succ_of_lt enough.2⟩
  subst hc hd
  cases first with
  | none =>
      obtain ⟨t, rest, rest', hc, hd, none⟩ := h.opening
      have read := expressionStatement more h
      show fence.Contains (Parse.declared (Parse.statement b) (declaration b) (b + 1))
        (Parse.declared (Parse.statement b') (declaration b') (b' + 1)) c d
      unfold Contains at read ⊢
      rw [declared_cons hc, declared_cons hd, none, none]
      exact read
  | some t =>
      have leading := leading t rfl
      unfold Contains
      rw [declared_cons (t := t) rfl, declared_cons (t := t) rfl]
      simp only [leadingKinds, List.mem_cons, List.not_mem_nil, or_false] at leading
      rcases leading with hk | hk | hk | hk | hk | hk | hk
      · simp only [opening, hk]
        exact printed more h
      · simp only [opening, hk]
        exact variableDeclared more h
      · simp only [opening, hk]
        exact returned more t h
      · simp only [opening, hk]
        exact branching enough h
      · simp only [opening, hk]
        exact looping enough h
      · simp only [opening, hk]
        exact classDeclared h
      · simp only [opening, hk]
        exact functionDeclared h

end Fence

end Lox.Parse
