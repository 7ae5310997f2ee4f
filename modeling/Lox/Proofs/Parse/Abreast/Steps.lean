import Lox.Proofs.Parse.Cursor
import Lox.Proofs.Tree.Relabel

/-!
# Two readers abreast

The same rule is run on two readers that show the same tokens.  As long as neither comes to a place
where they differ, the rule does the same on both: it fails with the same fault, or comes to the
same tree but for the identities of accesses.

The relation between the two readers has a number in it, that of the tokens ahead.  It serves as the
measure of the recursion, and it is what the bounds of both sides are compared with.  One of the
readers is always a cursor, whose tokens are a list; the other is any reader that shows the same.

* `Abreast` — two rules do the same on two readers.
* `Paced` — what a relation between readers must promise, so that every step keeps it.
* `Enough` — the bounds of the rules: above the number of tokens ahead.
-/

namespace Lox.Parse

variable {σ α β γ δ : Type}

/-- From readers that are abreast, with `n` tokens ahead, two rules come to readers that are abreast
again, with results of which `Q` holds, or both fail with the same fault. -/
def Abreast (R : Nat → σ → Cursor → Prop) (n : Nat) (x : Parser σ α) (y : Rule β)
    (Q : α → β → Nat → σ → Prop) (c : σ) (d : Cursor) : Prop :=
  match x c, y d with
  | .ok a c', .ok b d' => ∃ m ≤ n, R m c' d' ∧ Q a b m c'
  | .error e c', .error e' d' => e = e' ∧ ∃ m ≤ n, R m c' d'
  | _, _ => False

namespace Abreast

variable {R : Nat → σ → Cursor → Prop} {n : Nat} {x : Parser σ α} {y : Rule β} {c : σ} {d : Cursor}
  {Q Q' : α → β → Nat → σ → Prop} {P : γ → δ → Nat → σ → Prop}

theorem pure {a : α} {b : β} (h : R n c d) (hQ : Q a b n c) :
    Abreast R n (pure a) (pure b) Q c d :=
  ⟨n, Nat.le_refl n, h, hQ⟩

theorem throw {fault : Fault} (h : R n c d) :
    Abreast R n (throw fault : Parser σ α) (throw fault : Rule β) Q c d :=
  ⟨rfl, n, Nat.le_refl n, h⟩

/-- One step after another, with no more tokens ahead than before. -/
theorem bind {f : α → Parser σ γ} {g : β → Rule δ} (h : Abreast R n x y Q c d)
    (hf : ∀ {a b m c' d'}, m ≤ n → R m c' d' → Q a b m c' → Abreast R m (f a) (g b) P c' d') :
    Abreast R n (x >>= f) (y >>= g) P c d := by
  unfold Abreast at h ⊢
  cases hx : x c with
  | error e c' =>
      cases hy : y d with
      | error e' d' =>
          rw [bind_error hx, bind_error hy]
          simpa only [hx, hy] using h
      | ok b d' => simp only [hx, hy] at h
  | ok a c' =>
      cases hy : y d with
      | error e' d' => simp only [hx, hy] at h
      | ok b d' =>
          simp only [hx, hy] at h
          obtain ⟨m, hm, hR, hQ⟩ := h
          have next := hf hm hR hQ
          unfold Abreast at next
          rw [bind_ok hx, bind_ok hy]
          split at next
          next =>
            obtain ⟨k, hk, next⟩ := next
            exact ⟨k, Nat.le_trans hk hm, next⟩
          next =>
            obtain ⟨same, k, hk, next⟩ := next
            exact ⟨same, k, Nat.le_trans hk hm, next⟩
          next => exact next

/-- A weaker property of what was read. -/
theorem mono (h : Abreast R n x y Q c d) (hQ : ∀ {a b m c'}, m ≤ n → Q a b m c' → Q' a b m c') :
    Abreast R n x y Q' c d := by
  unfold Abreast at h ⊢
  split at h
  next =>
    obtain ⟨m, hm, hR, h⟩ := h
    exact ⟨m, hm, hR, hQ hm h⟩
  next => exact h
  next => exact h

theorem map {f : α → γ} {g : β → δ} (h : Abreast R n x y Q c d)
    (hQ : ∀ {a b m c'}, m ≤ n → Q a b m c' → P (f a) (g b) m c') :
    Abreast R n (f <$> x) (g <$> y) P c d :=
  h.bind fun hm hR h => pure hR (hQ hm h)

/-- Where the one rule succeeds, so does the other. -/
theorem of_ok (h : Abreast R n x y Q c d) {a : α} {c' : σ} (hx : x c = .ok a c') :
    ∃ b d', y d = .ok b d' ∧ ∃ m ≤ n, R m c' d' ∧ Q a b m c' := by
  unfold Abreast at h
  rw [hx] at h
  cases hy : y d with
  | ok b d' =>
      simp only [hy] at h
      exact ⟨b, d', rfl, h⟩
  | error e d' => simp only [hy] at h

end Abreast

/-! ## Relations that every step keeps

What is asked of the two readers, so that no step tells them apart.  A look ahead may ask for the
end first, or not, and where it does not ask the readers must not differ. -/

variable [Reader σ]

/-- At the end, the token in view is of none of these kinds. -/
def Idle (kinds : List Kind) (c : σ) : Prop :=
  Reader.atEnd c = true → (Reader.seen c).kind ∉ kinds

/-- Fewer kinds are less to be careful with. -/
theorem Idle.mono {kinds kinds' : List Kind} {c : σ} (h : Idle kinds' c) (hk : kinds ⊆ kinds') :
    Idle kinds c :=
  fun hend hmem => h hend (hk hmem)

/-- The kinds that an expression takes without a look for the end. -/
def literalKinds : List Kind :=
  [.number, .string]

/-- The kinds that a statement takes without a look for the end. -/
def openingKinds : List Kind :=
  [.keyword .for_, .keyword .if_, .keyword .while_, .keyword .return_, .keyword .print,
    .symbol .leftBrace] ++ literalKinds

/-- What a relation between readers with `n` tokens ahead promises.  Unless it goes `through`, it
may end at a semicolon.  Identities are compared by what `f` makes of them. -/
structure Paced (through : Bool) (f : NodeId → NodeId) (R : Nat → σ → Cursor → Prop) : Prop where
  atEnd {n c d} : R n c d → Reader.atEnd c = d.rest.isEmpty
  seen {n c d t rest} : R n c d → d.rest = t :: rest → Reader.seen c = t
  line {n c d} : R n c d → (Reader.seen c).line = d.seen.line
  /-- A token that was taken is not in view at the end, unless it is of one of the kinds. -/
  advance {n c d t rest} : R n c d → d.rest = t :: rest →
    through = true ∨ t.kind ≠ .symbol .semicolon →
    (∃ m < n, R m (Reader.advance c) { d with rest }) ∧
      ∀ kinds, Kind.eof ∉ kinds → t.kind ∉ kinds → Idle kinds (Reader.advance c)
  mint {n c d} : R n c d → f (Reader.mint c).1 = f d.nextNode ∧
    R n (Reader.mint c).2 { d with nextNode := d.nextNode + 1 }

/-- Bounds that a rule with `n` tokens ahead does not use up. -/
def Enough (b b' n : Nat) : Prop :=
  n < b ∧ n < b'

namespace Enough

variable {b b' n m : Nat}

theorem mono (h : Enough b b' n) (le : m ≤ n) : Enough b b' m :=
  ⟨Nat.lt_of_le_of_lt le h.1, Nat.lt_of_le_of_lt le h.2⟩

/-- One level of the bound is spent on a token. -/
theorem pred (h : Enough (b + 1) (b' + 1) n) (lt : m < n) : Enough b b' m :=
  ⟨Nat.lt_of_lt_of_le lt (Nat.le_of_lt_succ h.1), Nat.lt_of_lt_of_le lt (Nat.le_of_lt_succ h.2)⟩

/-- A bound that is enough is not used up. -/
theorem zero (h : Enough 0 b' n) : False :=
  Nat.not_lt_zero n h.1

theorem succ (h : Enough b b' n) : ∃ k, b' = k + 1 :=
  Nat.exists_eq_add_one_of_ne_zero (Nat.ne_zero_of_lt h.2)

end Enough

namespace Paced

variable {through : Bool} {f : NodeId → NodeId} {R : Nat → σ → Cursor → Prop}
  (paced : Paced through f R)
include paced

variable {n : Nat} {c : σ} {d : Cursor} {kinds : List Kind} {kind : Kind}
  {Q : α → β → Nat → σ → Prop}

/-- Both fail, with the token in view. -/
theorem fail {fault : SyntaxFault} (h : R n c d) :
    Abreast R n (fail fault : Parser σ α) (Parse.fail fault : Rule β) Q c d :=
  ⟨congrArg (·, fault) (paced.line h), n, Nat.le_refl n, h⟩

/-- A rule that begins with a look for a token that ends it. -/
theorem sees_bind {x : Bool → Parser σ α} {y : Bool → Rule β} (h : R n c d)
    (next : ∀ b, Abreast R n (x b) (y b) Q c d) :
    Abreast R n (sees kind >>= x) (sees kind >>= y) Q c d := by
  have same : (!Reader.atEnd c && (Reader.seen c).kind == kind) =
      (!Reader.atEnd d && (Reader.seen d).kind == kind) := by
    rw [paced.atEnd h]
    cases hd : d.rest with
    | nil => simp [Reader.atEnd, hd]
    | cons t rest => simp [Reader.atEnd, Reader.seen, Cursor.seen, hd, paced.seen h hd]
  have step := next (!Reader.atEnd d && (Reader.seen d).kind == kind)
  unfold Abreast at step ⊢
  rw [bind_ok (rfl : sees kind c = .ok _ c), bind_ok (rfl : sees kind d = .ok _ d), same]
  exact step

theorem ended_bind {x : Bool → Parser σ α} {y : Bool → Rule β} (h : R n c d)
    (next : Abreast R n (x d.rest.isEmpty) (y d.rest.isEmpty) Q c d) :
    Abreast R n (ended >>= x) (ended >>= y) Q c d := by
  unfold Abreast at next ⊢
  rw [bind_ok (rfl : ended c = .ok _ c), bind_ok (rfl : ended d = .ok _ d), paced.atEnd h]
  exact next

/-- A rule that begins with a token, if there is one of the kinds. -/
theorem acceptAny_bind {x : Option Token → Parser σ α} {y : Option Token → Rule β} (h : R n c d)
    (free : through = true ∨ .symbol .semicolon ∉ kinds)
    (some : ∀ {t m c' d'}, t.kind ∈ kinds → m < n → R m c' d' →
      (∀ ks, Kind.eof ∉ ks → t.kind ∉ ks → Idle ks c') →
        Abreast R m (x (some t)) (y (some t)) Q c' d')
    (none : Abreast R n (x none) (y none) Q c d) :
    Abreast R n (acceptAny kinds >>= x) (acceptAny kinds >>= y) Q c d := by
  cases hd : d.rest with
  | nil =>
      have hc : acceptAny kinds c = .ok Option.none c := by
        simp only [acceptAny, paced.atEnd h, hd, List.isEmpty_nil, if_true]
      unfold Abreast at none ⊢
      rw [bind_ok hc, bind_ok (acceptAny_nil hd)]
      exact none
  | cons t rest =>
      have hc : acceptAny kinds c =
          if t.kind ∈ kinds then .ok (.some t) (Reader.advance c) else .ok .none c := by
        simp only [acceptAny, takeAny, paced.atEnd h, hd, List.isEmpty_cons, Bool.false_eq_true,
          if_false, paced.seen h hd]
      by_cases hk : t.kind ∈ kinds
      · obtain ⟨⟨m, lt, hm⟩, idle⟩ := paced.advance h hd
          (free.imp_right fun stop same => stop (same ▸ hk))
        have next := some hk lt hm idle
        unfold Abreast at next ⊢
        rw [bind_ok (hc.trans (if_pos hk)), bind_ok ((acceptAny_cons hd).trans (if_pos hk))]
        split at next
        next =>
          obtain ⟨k, hk, next⟩ := next
          exact ⟨k, Nat.le_trans hk (Nat.le_of_lt lt), next⟩
        next =>
          obtain ⟨same, k, hk, next⟩ := next
          exact ⟨same, k, Nat.le_trans hk (Nat.le_of_lt lt), next⟩
        next => exact next
      · unfold Abreast at none ⊢
        rw [bind_ok (hc.trans (if_neg hk)), bind_ok ((acceptAny_cons hd).trans (if_neg hk))]
        exact none

/-- The same for a rule that does not look for the end. -/
theorem takeAny_bind {x : Option Token → Parser σ α} {y : Option Token → Rule β} (h : R n c d)
    (idle : Idle kinds c) (eof : .eof ∉ kinds)
    (free : through = true ∨ .symbol .semicolon ∉ kinds)
    (some : ∀ {t m c' d'}, t.kind ∈ kinds → m < n → R m c' d' →
      (∀ ks, Kind.eof ∉ ks → t.kind ∉ ks → Idle ks c') →
        Abreast R m (x (some t)) (y (some t)) Q c' d')
    (none : Abreast R n (x none) (y none) Q c d) :
    Abreast R n (takeAny kinds >>= x) (takeAny kinds >>= y) Q c d := by
  have hc : takeAny kinds c = acceptAny kinds c := by
    simp only [acceptAny]
    split
    next hend => exact if_neg (idle hend)
    next => rfl
  have accepted := paced.acceptAny_bind h free some none
  rw [takeAny_eq eof]
  unfold Abreast at accepted ⊢
  simp only [Bind.bind, EStateM.bind, hc] at accepted ⊢
  exact accepted

/-- A rule that begins with a token of one kind, if there is one. -/
theorem accept_bind {x : Option Token → Parser σ α} {y : Option Token → Rule β} (h : R n c d)
    (free : through = true ∨ kind ≠ .symbol .semicolon)
    (some : ∀ {t m c' d'}, t.kind = kind → m < n → R m c' d' →
      (∀ ks, Kind.eof ∉ ks → kind ∉ ks → Idle ks c') →
        Abreast R m (x (some t)) (y (some t)) Q c' d')
    (none : Abreast R n (x none) (y none) Q c d) :
    Abreast R n (accept kind >>= x) (accept kind >>= y) Q c d := by
  refine paced.acceptAny_bind h (free.imp_right (by simp [eq_comm])) (fun hk lt hR idle => ?_) none
  have hk := List.mem_singleton.1 hk
  exact some hk lt hR (hk ▸ idle)

/-- The same for a rule that does not look for the end. -/
theorem take_bind {x : Option Token → Parser σ α} {y : Option Token → Rule β} (h : R n c d)
    (idle : Idle kinds c) (mem : kind ∈ kinds) (eof : kind ≠ .eof)
    (free : through = true ∨ kind ≠ .symbol .semicolon)
    (some : ∀ {t m c' d'}, t.kind = kind → m < n → R m c' d' →
      (∀ ks, Kind.eof ∉ ks → kind ∉ ks → Idle ks c') →
        Abreast R m (x (some t)) (y (some t)) Q c' d')
    (none : Abreast R n (x none) (y none) Q c d) :
    Abreast R n (take kind >>= x) (take kind >>= y) Q c d := by
  refine paced.takeAny_bind h (idle.mono (by simpa using mem)) (by simpa using eof.symm)
    (free.imp_right (by simp [eq_comm])) (fun hk lt hR idle => ?_) none
  have hk := List.mem_singleton.1 hk
  exact some hk lt hR (hk ▸ idle)

/-- A rule that begins with a token that must be there. -/
theorem expect_bind {what : Expected} {x : Token → Parser σ α} {y : Token → Rule β} (h : R n c d)
    (free : through = true ∨ kind ≠ .symbol .semicolon)
    (next : ∀ {t m c' d'}, t.kind = kind → m < n → R m c' d' →
      (∀ ks, Kind.eof ∉ ks → kind ∉ ks → Idle ks c') → Abreast R m (x t) (y t) Q c' d') :
    Abreast R n (expect kind what >>= x) (expect kind what >>= y) Q c d := by
  simp only [expect, bind_assoc]
  refine paced.accept_bind h free (fun hk lt hR idle => ?_) ?_
  · exact next hk lt hR idle
  · exact Abreast.bind (Q := fun _ _ _ _ => False) (paced.fail h) fun _ _ hQ => hQ.elim

end Paced

end Lox.Parse
