import Lox.Proofs.Parse.Abreast.Steps

/-!
# Expressions on two readers abreast

No expression takes a semicolon, so the two readers need not agree on what follows the next one.
What an expression takes without a look for the end is a number or a string; every token after which
an operand is read is of another kind.

For expressions the number of tokens ahead is what the induction is on: parentheses, arguments and
the value of an assignment come behind a token that was taken, so the rule inside of them may be
assumed for fewer.  An operand is read at the same number, which is why the rules for operators have
a rule for their operands as a parameter.

* `Operands` — two rules read expressions alike.
* `Paced.expression` — the rules of the grammar do, with bounds that are enough.
-/

namespace Lox.Parse

variable {σ : Type} [Reader σ]

/-- Expressions that are the same but for identities, of at least one of `n` tokens. -/
def Alike (f : NodeId → NodeId) (n : Nat) : Expr → Expr → Nat → σ → Prop :=
  fun e e' m _ => e.relabel f id = e'.relabel f id ∧ m < n

/-- With at most `n` tokens ahead, two rules read expressions alike. -/
def Operands (R : Nat → σ → Cursor → Prop) (f : NodeId → NodeId) (n : Nat) (x : Parser σ Expr)
    (y : Rule Expr) : Prop :=
  ∀ ⦃m c d⦄, m ≤ n → R m c d → Idle literalKinds c → Abreast R m x y (Alike f m) c d

theorem Operands.mono {R : Nat → σ → Cursor → Prop} {f : NodeId → NodeId} {n m : Nat}
    {x : Parser σ Expr} {y : Rule Expr} (h : Operands R f n x y) (le : m ≤ n) :
    Operands R f m x y :=
  fun _ _ _ hk => h (Nat.le_trans hk le)

namespace Paced

variable {through : Bool} {f : NodeId → NodeId} {R : Nat → σ → Cursor → Prop}
  (paced : Paced through f R)
include paced

variable {n : Nat} {c : σ} {d : Cursor}

/-! ## Operators that associate to the left

The loop of a level makes as many rounds on both sides. -/

section
variable {kinds : List Kind} {node : Expr → Token → Expr → Expr} {x : Parser σ Expr} {y : Rule Expr}
  (stop : .symbol .semicolon ∉ kinds) (other : ∀ k ∈ kinds, k ∉ literalKinds)
  (hnode : ∀ {l l' r r'} (t : Token), l.relabel f id = l'.relabel f id →
    r.relabel f id = r'.relabel f id → (node l t r).relabel f id = (node l' t r').relabel f id)
include stop other hnode

/-- The loop, from trees that are the same up to identities. -/
theorem chain (operand : Operands R f n x y) {b b' : Nat} (enough : Enough b b' n)
    {left left' : Expr} (same : left.relabel f id = left'.relabel f id) (h : R n c d) :
    Abreast R n (Parse.chain kinds node x b left) (Parse.chain kinds node y b' left')
      (fun e e' _ _ => e.relabel f id = e'.relabel f id) c d := by
  induction b generalizing b' n left left' c d with
  | zero => exact enough.zero.elim
  | succ b ih =>
      obtain ⟨b', rfl⟩ := enough.succ
      unfold Parse.chain
      refine paced.acceptAny_bind h (.inr stop) (fun hk lt hR idle => ?_) (.pure h same)
      have le := Nat.le_of_lt lt
      refine (operand le hR (idle _ (by decide) (other _ hk))).bind fun le' hR' hright => ?_
      exact ih (operand.mono (Nat.le_trans le' le)) ((enough.pred lt).mono le')
        (hnode _ same hright.1) hR'

theorem level (operand : Operands R f n x y) {b b' : Nat} (enough : Enough b b' n) :
    Operands R f n (Parse.level kinds node x b) (Parse.level kinds node y b') := by
  intro m c d le hR idle
  refine (operand le hR idle).bind fun le' hR' hleft => ?_
  have le := Nat.le_trans le' le
  refine (paced.chain stop other hnode (operand.mono le) (enough.mono le)
    hleft.1 hR').mono fun le'' same => ?_
  exact ⟨same, Nat.lt_of_le_of_lt le'' hleft.2⟩

end

/-! ## Lists in parentheses

The lists have the same length, and the same members up to identities. -/

section
variable {α γ : Type} {g : α → γ} {item : Parser σ α} {item' : Rule α} {tooMany : SyntaxFault}
  (items : ∀ {m c d}, m ≤ n → R m c d → Idle literalKinds c →
    Abreast R m item item' (fun a b _ _ => g a = g b) c d)
include items

theorem separated (room : Nat) (h : R n c d) (idle : Idle literalKinds c) :
    Abreast R n (Parse.separated tooMany item room) (Parse.separated tooMany item' room)
      (fun xs ys _ _ => xs.map g = ys.map g) c d := by
  induction room generalizing n c d with
  | zero => exact paced.fail h
  | succ room ih =>
      unfold Parse.separated
      refine (items (Nat.le_refl n) h idle).bind fun le hR hitem => ?_
      refine paced.accept_bind hR (.inr nofun) (fun hk lt hR' idle' => ?_) ?_
      · have le' := Nat.le_trans (Nat.le_of_lt lt) le
        refine (ih (fun h => items (Nat.le_trans h le')) hR' (idle' _ (by decide) (by decide))).bind
          fun _ hR'' hitems => ?_
        exact .pure hR'' (by simp only [List.map_cons, hitem, hitems])
      · exact .pure hR (by simp only [List.map_cons, List.map_nil, hitem])

/-- A list, or a closing parenthesis at once. -/
theorem parenthesized (h : R n c d) (idle : Idle literalKinds c) :
    Abreast R n (Parse.parenthesized tooMany item) (Parse.parenthesized tooMany item')
      (fun xs ys _ _ => xs.map g = ys.map g) c d := by
  refine paced.sees_bind h fun closes => ?_
  cases closes with
  | true => exact .pure h rfl
  | false => exact paced.separated items maxArity h idle

end

/-! ## Operands

From constants to assignments. -/

/-- A number or a string is taken without a look for the end, so there must not be one behind it on
one side only. -/
theorem acceptLiteral (h : R n c d) (idle : Idle literalKinds c) :
    Abreast R n Parse.acceptLiteral Parse.acceptLiteral
      (fun found found' m _ => found = found' ∧ (found.isSome → m < n)) c d := by
  unfold Parse.acceptLiteral
  refine paced.acceptAny_bind h (.inr (by decide)) (fun _ lt hR _ => .pure hR ⟨rfl, fun _ => lt⟩) ?_
  exact paced.takeAny_bind h idle (by decide) (.inr (by decide))
    (fun _ lt hR _ => .pure hR ⟨rfl, fun _ => lt⟩) (.pure h ⟨rfl, nofun⟩)

/-- Both targets can be assigned, or neither can. -/
theorem assignTo {e e' v v' : Expr} (line : Nat) (he : e.relabel f id = e'.relabel f id)
    (hv : v.relabel f id = v'.relabel f id) (h : R n c d) :
    Abreast R n (Parse.assignTo e line v) (Parse.assignTo e' line v')
      (fun e e' _ _ => e.relabel f id = e'.relabel f id) c d := by
  cases e <;> cases e' <;> simp only [Expr.relabel, reduceCtorEq, Expr.read.injEq,
    Expr.get.injEq, Token.mapLine_id] at he
  case read.read =>
    obtain ⟨-, rfl⟩ := he
    obtain ⟨same, hR⟩ := paced.mint h
    refine ⟨n, Nat.le_refl n, hR, ?_⟩
    simp only [Expr.relabel, hv]
    exact congrArg (Expr.assign · _ _) same
  case get.get =>
    obtain ⟨same, rfl⟩ := he
    exact .pure h (by simp only [Expr.relabel, same, hv])
  all_goals exact .throw h

section
variable {x : Parser σ Expr} {y : Rule Expr} (inner : ∀ {m}, m < n → Operands R f m x y)
include inner

/-- Constants, names and parentheses. -/
theorem primary : Operands R f n (Parse.primary x) (Parse.primary y) := by
  intro m c d le h idle
  unfold Parse.primary
  refine (paced.acceptLiteral h idle).bind fun {found found' k c' d'} le' hR hfound => ?_
  obtain ⟨rfl, taken⟩ := hfound
  cases found with
  | some value => exact .pure hR ⟨rfl, taken rfl⟩
  | none =>
      refine paced.accept_bind hR (.inr nofun) (fun _ lt hR' _ => ?_) ?_
      · obtain ⟨same, hR''⟩ := paced.mint hR'
        exact .pure (Q := Alike f m) hR''
          ⟨congrArg (Expr.read · _) same, Nat.lt_of_lt_of_le lt le'⟩
      · refine paced.accept_bind hR (.inr nofun) (fun _ lt hR' idle' => ?_) (paced.fail hR)
        have lt := Nat.lt_of_lt_of_le lt le'
        refine (inner (Nat.lt_of_lt_of_le lt le) (Nat.le_refl _) hR'
          (idle' _ (by decide) (by decide))).bind fun _ hR'' hinner => ?_
        refine paced.expect_bind hR'' (.inr nofun) fun _ lt' hR''' _ => ?_
        refine .pure hR''' ⟨?_, Nat.lt_trans lt' (Nat.lt_trans hinner.2 lt)⟩
        simp only [Expr.relabel, hinner.1]

/-- The loop over calls and properties. -/
theorem suffixes {b b' : Nat} (enough : Enough b b' n) {e e' : Expr}
    (same : e.relabel f id = e'.relabel f id) (h : R n c d) :
    Abreast R n (Parse.suffixes x b e) (Parse.suffixes y b' e')
      (fun e e' _ _ => e.relabel f id = e'.relabel f id) c d := by
  induction b generalizing b' n e e' c d with
  | zero => exact enough.zero.elim
  | succ b ih =>
      obtain ⟨b', rfl⟩ := enough.succ
      unfold Parse.suffixes
      have shrink {m : Nat} (lt : m < n) {k : Nat} (hk : k < m) : Operands R f k x y :=
        inner (Nat.lt_trans hk lt)
      refine paced.accept_bind h (.inr nofun) (fun _ lt hR idle => ?_) ?_
      · refine (paced.parenthesized (g := Expr.relabel f id) (fun le hR idle => ?_) hR
          (idle _ (by decide) (by decide))).bind fun le hR' harguments => ?_
        · exact (inner (Nat.lt_of_le_of_lt le lt) (Nat.le_refl _) hR idle).mono
            fun _ alike => alike.1
        · refine paced.expect_bind hR' (.inr nofun) fun _ lt' hR'' _ => ?_
          have lt'' := Nat.lt_of_lt_of_le lt' le
          refine ih (shrink (Nat.lt_trans lt'' lt)) (enough.pred (Nat.lt_trans lt'' lt)) ?_ hR''
          simp only [Expr.relabel, Expr.relabelAll_eq_map, same, harguments]
      · refine paced.accept_bind h (.inr nofun) (fun _ lt hR _ => ?_) (.pure h same)
        refine paced.expect_bind hR (.inr nofun) fun _ lt' hR' _ => ?_
        refine ih (shrink (Nat.lt_trans lt' lt)) (enough.pred (Nat.lt_trans lt' lt)) ?_ hR'
        simp only [Expr.relabel, same]

theorem suffixed {b b' : Nat} (enough : Enough b b' n) :
    Operands R f n (Parse.suffixed x b) (Parse.suffixed y b') := by
  intro m c d le h idle
  refine (paced.primary (fun lt => inner (Nat.lt_of_lt_of_le lt le)) (Nat.le_refl m) h idle).bind
    fun le' hR he => ?_
  have le := Nat.le_trans le' le
  refine (paced.suffixes (fun lt => inner (Nat.lt_of_lt_of_le lt le)) (enough.mono le) he.1 hR).mono
    fun le'' same => ?_
  exact ⟨same, Nat.lt_of_le_of_lt le'' he.2⟩

/-- Operators before their operand. -/
theorem unary {b b' : Nat} (enough : Enough b b' n) :
    Operands R f n (Parse.unary x b) (Parse.unary y b') := by
  induction b generalizing b' n with
  | zero => exact enough.zero.elim
  | succ b ih =>
      obtain ⟨b', rfl⟩ := enough.succ
      intro m c d le h idle
      unfold Parse.unary
      refine paced.acceptAny_bind h (.inr (by decide)) (fun {t _ _ _} hk lt hR idle' => ?_) ?_
      · have lt' := Nat.lt_of_lt_of_le lt le
        have other : t.kind ∉ literalKinds := by
          simp only [List.mem_cons, List.not_mem_nil, or_false] at hk
          rcases hk with hk | hk <;> simp [hk, literalKinds]
        refine (ih (fun lt'' => inner (Nat.lt_trans lt'' lt')) (enough.pred lt') (Nat.le_refl _) hR
          (idle' _ (by decide) other)).bind fun _ hR' he => ?_
        refine .pure hR' ⟨?_, Nat.lt_trans he.2 lt⟩
        simp only [Expr.relabel, he.1]
      · exact paced.suffixed inner enough le h idle

theorem disjunction {b b' : Nat} (enough : Enough b b' n) :
    Operands R f n (Parse.disjunction x b) (Parse.disjunction y b') := by
  have binary {l l' r r' : Expr} (t : Token) (hl : l.relabel f id = l'.relabel f id)
      (hr : r.relabel f id = r'.relabel f id) :
      (Expr.binary l t r).relabel f id = (Expr.binary l' t r').relabel f id := by
    simp only [Expr.relabel, hl, hr]
  have logical {l l' r r' : Expr} (t : Token) (hl : l.relabel f id = l'.relabel f id)
      (hr : r.relabel f id = r'.relabel f id) :
      (Expr.logical l t r).relabel f id = (Expr.logical l' t r').relabel f id := by
    simp only [Expr.relabel, hl, hr]
  have factor : Operands R f n (Parse.factor x b) (Parse.factor y b') :=
    paced.level (by decide) (by decide) binary (paced.unary inner enough) enough
  have term : Operands R f n (Parse.term x b) (Parse.term y b') :=
    paced.level (by decide) (by decide) binary factor enough
  have comparison : Operands R f n (Parse.comparison x b) (Parse.comparison y b') :=
    paced.level (by decide) (by decide) binary term enough
  have equality : Operands R f n (Parse.equality x b) (Parse.equality y b') :=
    paced.level (by decide) (by decide) binary comparison enough
  have conjunction : Operands R f n (Parse.conjunction x b) (Parse.conjunction y b') :=
    paced.level (by decide) (by decide) logical equality enough
  exact paced.level (by decide) (by decide) logical conjunction enough

/-- Both sides are assignments, or neither is. -/
theorem assignment {b b' : Nat} (enough : Enough b b' n) :
    Operands R f n (Parse.assignment x b) (Parse.assignment y b') := by
  intro m c d le h idle
  refine (paced.disjunction inner enough le h idle).bind fun le' hR htarget => ?_
  refine paced.accept_bind hR (.inr nofun) (fun {t _ _ _} _ lt hR' idle' => ?_) (.pure hR htarget)
  have lt := Nat.lt_of_lt_of_le lt le'
  refine (inner (Nat.lt_of_lt_of_le lt le) (Nat.le_refl _) hR'
    (idle' _ (by decide) (by decide))).bind fun le'' hR'' hvalue => ?_
  refine (paced.assignTo t.line htarget.1 hvalue.1 hR'').mono fun le''' same => ?_
  exact ⟨same, Nat.lt_of_le_of_lt (Nat.le_trans le''' le'') lt⟩

end

/-- An expression is read alike from two readers abreast. -/
theorem expression {b b' : Nat} (enough : Enough b b' n) :
    Operands R f n (Parse.expression b) (Parse.expression b') := by
  induction b generalizing b' n with
  | zero => exact enough.zero.elim
  | succ b ih =>
      obtain ⟨b', rfl⟩ := enough.succ
      exact paced.assignment (fun lt => ih (enough.pred lt)) enough

end Paced

end Lox.Parse
