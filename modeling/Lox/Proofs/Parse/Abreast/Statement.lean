import Lox.Proofs.Parse.Abreast.Expression
import Lox.Proofs.Parse.Steps

/-!
# Statements on two readers abreast

A statement begins with a look at the token in view that asks for no end.  It does no harm: a
statement is read where there is a token left, or behind a token of a kind it does not begin with.

The two readers differ in two ways that matter to statements.  What is behind the last token they
agree on may be the end for the one and more tokens for the other; and they count their bounds
differently.  So each lemma says with how many tokens ahead it holds, and how many are ahead
afterwards, and the bounds are only compared with those numbers.

* `Recovers` — a relation that recovery keeps.
* `Paced.statement_declaration` — statements and declarations are read alike.
* `Paced.program` — and so are whole programs.
-/

namespace Lox.Parse

variable {σ : Type} [Reader σ]

/-- Readers that are abreast are so after a fault, with a token less ahead if there was one. -/
structure Recovers (R : Nat → σ → Cursor → Prop) : Prop where
  filled {n c d t rest} : R n c d → d.rest = t :: rest → 0 < n
  recover {n c d} (fault : Fault) : R n c d →
    ∃ m ≤ n, (0 < n → m < n) ∧ R m (Reader.recover fault c) (Reader.recover fault d)

/-- Statements that are the same but for identities, of at least one of `n` tokens. -/
def StmtAlike (f : NodeId → NodeId) (n : Nat) : Stmt → Stmt → Nat → σ → Prop :=
  fun s s' m _ => s.relabel f id = s'.relabel f id ∧ m < n

/-- The same, and the last token that was taken is of no kind that an operand begins with. -/
def StmtEnded (f : NodeId → NodeId) (n : Nat) : Stmt → Stmt → Nat → σ → Prop :=
  fun s s' m c => StmtAlike f n s s' m c ∧ Idle literalKinds c

/-- With at most `n` tokens ahead, two rules read statements alike. -/
def Statements (R : Nat → σ → Cursor → Prop) (f : NodeId → NodeId) (n : Nat) (x : Parser σ Stmt)
    (y : Rule Stmt) : Prop :=
  ∀ ⦃m c d⦄, m ≤ n → R m c d → Idle openingKinds c → Abreast R m x y (StmtAlike f m) c d

/-- With at most `n` tokens ahead and at least one, two rules read declarations alike. -/
def Declarations (R : Nat → σ → Cursor → Prop) (f : NodeId → NodeId) (n : Nat)
    (x : Parser σ (Option Stmt)) (y : Rule (Option Stmt)) : Prop :=
  ∀ ⦃m c d⦄, m ≤ n → R m c d → d.rest ≠ [] →
    Abreast R m x y (fun s s' k _ => s.map (Stmt.relabel f id) = s'.map (Stmt.relabel f id) ∧ k < m)
      c d

theorem Idle.literal {c : σ} (h : Idle openingKinds c) : Idle literalKinds c :=
  h.mono (List.subset_append_right _ _)

namespace Paced

theorem optionalUpTo {through : Bool} {f : NodeId → NodeId} {R : Nat → σ → Cursor → Prop}
    (paced : Paced through f R) {n : Nat} {c : σ} {d : Cursor} {b b' : Nat} (enough : Enough b b' n)
    (kind : Kind) (h : R n c d) (idle : Idle literalKinds c) :
    Abreast R n (Parse.optionalUpTo kind b) (Parse.optionalUpTo kind b')
      (fun e e' _ _ => e.map (Expr.relabel f id) = e'.map (Expr.relabel f id)) c d := by
  refine paced.sees_bind h fun closes => ?_
  cases closes with
  | true => exact .pure h rfl
  | false =>
      exact (paced.expression enough (Nat.le_refl n) h idle).map
        fun _ he => by simp only [Option.map_some, he.1]

variable {f : NodeId → NodeId} {R : Nat → σ → Cursor → Prop} (paced : Paced true f R)
include paced

variable {n : Nat} {c : σ} {d : Cursor}

theorem idle_of_ne_nil {kinds : List Kind} (h : R n c d) (filled : d.rest ≠ []) : Idle kinds c := by
  intro hend
  rw [paced.atEnd h, List.isEmpty_iff] at hend
  exact absurd hend filled

/-! ## Simple statements

They end with a semicolon or a name, so what follows them does not matter. -/

section
variable {b b' : Nat} (enough : Enough b b' n)
include enough

/-- An expression is read to its semicolon on both sides. -/
theorem expressionStatement (h : R n c d) (idle : Idle literalKinds c) :
    Abreast R n (Parse.expressionStatement b) (Parse.expressionStatement b')
      (StmtEnded f n) c d := by
  refine (paced.expression enough (Nat.le_refl n) h idle).bind fun _ hR he => ?_
  refine paced.expect_bind hR (.inl rfl) fun _ lt hR' idle' => ?_
  refine .pure hR' ⟨⟨?_, Nat.lt_trans lt he.2⟩, idle' _ (by decide) (by decide)⟩
  simp only [Stmt.relabel, he.1]

theorem printed (h : R n c d) (idle : Idle literalKinds c) :
    Abreast R n (Parse.printed b) (Parse.printed b') (StmtAlike f n) c d := by
  refine (paced.expression enough (Nat.le_refl n) h idle).bind fun _ hR he => ?_
  refine paced.expect_bind hR (.inl rfl) fun _ lt hR' _ => ?_
  refine .pure hR' ⟨?_, Nat.lt_trans lt he.2⟩
  simp only [Stmt.relabel, he.1]

/-- A `return` is read abreast, with a value or with none. -/
theorem returned (keyword : Token) (h : R n c d) (idle : Idle literalKinds c) :
    Abreast R n (Parse.returned b keyword) (Parse.returned b' keyword) (StmtAlike f n) c d := by
  rw [returned_eq, returned_eq]
  refine (paced.optionalUpTo enough _ h idle).bind fun le hR he => ?_
  refine paced.expect_bind hR (.inl rfl) fun _ lt hR' _ => ?_
  refine .pure hR' ⟨?_, Nat.lt_of_lt_of_le lt le⟩
  simp only [Stmt.relabel, he]

/-- A variable, with its initializer. -/
theorem variableDeclared (h : R n c d) :
    Abreast R n (Parse.variableDeclared b) (Parse.variableDeclared b') (StmtEnded f n) c d := by
  rw [variableDeclared_eq, variableDeclared_eq]
  refine paced.expect_bind h (.inl rfl) fun {name _ _ _} _ lt hR _ => ?_
  -- What is left once the initializer has been read, if there is one.
  have rest {e e' : Option Expr} {m : Nat} {c : σ} {d : Cursor} (le : m ≤ n) (hR : R m c d)
      (he : e.map (Expr.relabel f id) = e'.map (Expr.relabel f id)) :
      Abreast R m
        (do let _ ← expect (.symbol .semicolon) .variableEnd; return Stmt.var name e)
        (do let _ ← expect (.symbol .semicolon) .variableEnd; return Stmt.var name e')
        (StmtEnded f n) c d := by
    refine paced.expect_bind hR (.inl rfl) fun _ lt hR' idle => ?_
    refine .pure hR' ⟨⟨?_, Nat.lt_of_lt_of_le lt le⟩, idle _ (by decide) (by decide)⟩
    simp only [Stmt.relabel, he]
  refine paced.accept_bind hR (.inl rfl) (fun _ lt' hR' idle => ?_) ?_
  · have lt := Nat.lt_trans lt' lt
    have read := paced.expression (enough.mono (Nat.le_of_lt lt)) (Nat.le_refl _) hR'
      (idle _ (by decide) (by decide))
    refine (read.map (P := fun e e' _ _ =>
      e.map (Expr.relabel f id) = e'.map (Expr.relabel f id)) fun _ he => ?_).bind
        fun le hR'' he => rest (Nat.le_trans le (Nat.le_of_lt lt)) hR'' he
    simp only [Option.map_some, he.1]
  · exact rest (Nat.le_of_lt lt) hR rfl

/-- After the first clause of a `for` loop no constant is in view that could be taken without a look
for the end. -/
theorem forInitializer (h : R n c d) (idle : Idle literalKinds c) :
    Abreast R n (Parse.forInitializer b) (Parse.forInitializer b')
      (fun s s' _ c' => s.map (Stmt.relabel f id) = s'.map (Stmt.relabel f id) ∧
        Idle literalKinds c') c d := by
  unfold Parse.forInitializer
  refine paced.accept_bind h (.inl rfl)
    (fun _ _ hR idle => .pure hR ⟨rfl, idle _ (by decide) (by decide)⟩) ?_
  refine paced.accept_bind h (.inl rfl) (fun _ lt hR _ => ?_) ?_
  · exact (paced.variableDeclared (enough.mono (Nat.le_of_lt lt)) hR).map
      fun _ hs => ⟨by simp only [Option.map_some, hs.1.1], hs.2⟩
  · exact (paced.expressionStatement enough h idle).map
      fun _ hs => ⟨by simp only [Option.map_some, hs.1.1], hs.2⟩

end

theorem classDeclared (h : R n c d) :
    Abreast R n Parse.classDeclared Parse.classDeclared (StmtAlike f n) c d := by
  unfold Parse.classDeclared
  refine paced.expect_bind h (.inl rfl) fun _ lt hR _ => ?_
  refine paced.expect_bind hR (.inl rfl) fun _ lt' hR' _ => ?_
  refine paced.accept_bind hR' (.inl rfl) (fun _ lt'' hR'' _ => ?_) (paced.fail hR')
  exact .pure hR'' ⟨rfl, Nat.lt_trans lt'' (Nat.lt_trans lt' lt)⟩

/-! ## Statements that hold others

What they hold is read by rules that are parameters, for fewer tokens. -/

section
variable {x : Parser σ (Option Stmt)} {y : Rule (Option Stmt)}

/-- Declarations one after another, with faults between them. -/
theorem declarations (recovers : Recovers R) (each : Declarations R f n x y) (braced : Bool)
    {b b' : Nat} (le : n ≤ b) (le' : n ≤ b') (h : R n c d) :
    Abreast R n (Parse.declarations x braced b) (Parse.declarations y braced b')
      (fun ss ss' _ _ => ss.map (Stmt.relabel f id) = ss'.map (Stmt.relabel f id)) c d := by
  induction b generalizing b' n c d with
  | zero =>
      have nil : d.rest = [] := by
        rcases hd : d.rest with _ | ⟨t, rest⟩
        · rfl
        · exact absurd (recovers.filled h hd) (Nat.not_lt.2 le)
      have hend : Reader.atEnd c = true := by rw [paced.atEnd h, nil, List.isEmpty_nil]
      have hend' : Reader.atEnd d = true := List.isEmpty_iff.2 nil
      unfold Abreast
      rw [declarations_ended hend, declarations_ended hend']
      exact ⟨n, Nat.le_refl n, h, rfl⟩
  | succ b ih =>
      rcases hd : d.rest with _ | ⟨t, rest⟩
      · have hend : Reader.atEnd c = true := by rw [paced.atEnd h, hd, List.isEmpty_nil]
        have hend' : Reader.atEnd d = true := List.isEmpty_iff.2 hd
        unfold Abreast
        rw [declarations_ended hend, declarations_ended hend']
        exact ⟨n, Nat.le_refl n, h, rfl⟩
      obtain ⟨b', rfl⟩ : ∃ k, b' = k + 1 :=
        Nat.exists_eq_add_one_of_ne_zero
          (Nat.ne_zero_of_lt (Nat.lt_of_lt_of_le (recovers.filled h hd) le'))
      unfold Parse.declarations
      refine paced.ended_bind h (paced.sees_bind h fun closes => ?_)
      split
      next => exact .pure h rfl
      next more =>
        have filled : d.rest ≠ [] := by simp [hd]
        refine (each (Nat.le_refl n) h filled).bind fun {s s' m c' d'} less hR hs => ?_
        refine (ih (fun _ _ _ hk => each (Nat.le_trans hk less)) (by omega) (by omega) hR).bind
          fun _ hR' hss => ?_
        refine .pure hR' ?_
        rw [List.map_append, List.map_append, hss]
        congr 1
        cases s <;> cases s' <;> simp_all

/-- The declarations of a block, and one token less for its brace. -/
theorem block (recovers : Recovers R) (each : Declarations R f n x y) {b b' : Nat}
    (enough : Enough b b' n) (h : R n c d) :
    Abreast R n (Parse.block x b) (Parse.block y b')
      (fun ss ss' m _ => ss.map (Stmt.relabel f id) = ss'.map (Stmt.relabel f id) ∧ m < n) c d := by
  refine (paced.declarations recovers each true (Nat.le_of_lt enough.1) (Nat.le_of_lt enough.2)
    h).bind fun le hR hss => ?_
  exact paced.expect_bind hR (.inl rfl) fun _ lt hR' _ => .pure hR' ⟨hss, Nat.lt_of_lt_of_le lt le⟩

theorem functionDeclared (recovers : Recovers R) (each : Declarations R f n x y) {b b' : Nat}
    (enough : Enough b b' n) (h : R n c d) :
    Abreast R n (Parse.functionDeclared x b) (Parse.functionDeclared y b') (StmtAlike f n) c d := by
  unfold Parse.functionDeclared
  refine paced.expect_bind h (.inl rfl) fun _ lt hR _ => ?_
  refine paced.expect_bind hR (.inl rfl) fun _ lt' hR' idle => ?_
  have lt := Nat.lt_trans lt' lt
  refine (paced.parenthesized (g := id) (fun {m c d} _ hR _ => ?_) hR'
    (idle _ (by decide) (by decide))).bind fun {parameters parameters' _ _ _} le hR'' hp => ?_
  · refine paced.accept_bind hR (.inl rfl) (fun _ _ hR' _ => ?_) (paced.fail hR)
    exact .pure hR' rfl
  · obtain rfl : parameters = parameters' := by simpa using hp
    refine paced.expect_bind hR'' (.inl rfl) fun _ lt'' hR₃ _ => ?_
    refine paced.expect_bind hR₃ (.inl rfl) fun _ lt₃ hR₄ _ => ?_
    have lt : _ < n := Nat.lt_trans lt₃ (Nat.lt_trans (Nat.lt_of_lt_of_le lt'' le) lt)
    refine (paced.block recovers (fun _ _ _ hk => each (Nat.le_trans hk (Nat.le_of_lt lt)))
      (enough.mono (Nat.le_of_lt lt)) hR₄).bind fun _ hR₅ hbody => ?_
    refine .pure hR₅ ⟨?_, Nat.lt_trans hbody.2 lt⟩
    simp only [Stmt.relabel, Stmt.relabelAll_eq_map, hbody.1]

end

section
variable {x : Parser σ Stmt} {y : Rule Stmt} (body : Statements R f n x y) {b b' : Nat}
  (enough : Enough b b' n)
include body enough

/-- An `if`, with `else` on both sides or on neither. -/
theorem branching (h : R n c d) :
    Abreast R n (Parse.branching x b) (Parse.branching y b') (StmtAlike f n) c d := by
  unfold Parse.branching
  refine paced.expect_bind h (.inl rfl) fun _ lt hR idle => ?_
  refine (paced.expression (enough.mono (Nat.le_of_lt lt)) (Nat.le_refl _) hR
    (idle _ (by decide) (by decide))).bind fun _ hR' hcondition => ?_
  refine paced.expect_bind hR' (.inl rfl) fun _ lt' hR'' idle' => ?_
  have lt := Nat.lt_trans lt' (Nat.lt_trans hcondition.2 lt)
  refine (body (Nat.le_of_lt lt) hR'' (idle' _ (by decide) (by decide))).bind fun _ hR₃ hyes => ?_
  have lt := Nat.lt_trans hyes.2 lt
  refine paced.accept_bind hR₃ (.inl rfl) (fun _ lt' hR₄ idle => ?_) ?_
  · have lt := Nat.lt_trans lt' lt
    refine (body (Nat.le_of_lt lt) hR₄ (idle _ (by decide) (by decide))).bind fun _ hR₅ hno => ?_
    refine .pure hR₅ ⟨?_, Nat.lt_trans hno.2 lt⟩
    simp only [Stmt.relabel, hcondition.1, hyes.1, hno.1]
  · refine .pure hR₃ ⟨?_, lt⟩
    simp only [Stmt.relabel, hcondition.1, hyes.1]

theorem looping (h : R n c d) :
    Abreast R n (Parse.looping x b) (Parse.looping y b') (StmtAlike f n) c d := by
  unfold Parse.looping
  refine paced.expect_bind h (.inl rfl) fun _ lt hR idle => ?_
  refine (paced.expression (enough.mono (Nat.le_of_lt lt)) (Nat.le_refl _) hR
    (idle _ (by decide) (by decide))).bind fun _ hR' hcondition => ?_
  refine paced.expect_bind hR' (.inl rfl) fun _ lt' hR'' idle' => ?_
  have lt := Nat.lt_trans lt' (Nat.lt_trans hcondition.2 lt)
  refine (body (Nat.le_of_lt lt) hR'' (idle' _ (by decide) (by decide))).bind fun _ hR₃ hbody => ?_
  refine .pure hR₃ ⟨?_, Nat.lt_trans hbody.2 lt⟩
  simp only [Stmt.relabel, hcondition.1, hbody.1]

omit [Reader σ] paced body enough in
/-- The tree of a `for` loop is made of parts that are the same up to identities. -/
theorem forLoop_alike {initializer initializer' : Option Stmt} {condition condition' increment
    increment' : Option Expr} {s s' : Stmt}
    (hi : initializer.map (Stmt.relabel f id) = initializer'.map (Stmt.relabel f id))
    (hc : condition.map (Expr.relabel f id) = condition'.map (Expr.relabel f id))
    (hn : increment.map (Expr.relabel f id) = increment'.map (Expr.relabel f id))
    (hs : s.relabel f id = s'.relabel f id) :
    (forLoop initializer condition increment s).relabel f id =
      (forLoop initializer' condition' increment' s').relabel f id := by
  cases initializer <;> cases initializer' <;> cases condition <;> cases condition' <;>
    cases increment <;> cases increment' <;>
    simp_all [forLoop, Stmt.relabel, Stmt.relabelAll]

theorem counting (h : R n c d) :
    Abreast R n (Parse.counting x b) (Parse.counting y b') (StmtAlike f n) c d := by
  unfold Parse.counting
  refine paced.expect_bind h (.inl rfl) fun _ lt hR idle => ?_
  refine (paced.forInitializer (enough.mono (Nat.le_of_lt lt)) hR
    (idle _ (by decide) (by decide))).bind fun le hR' hi => ?_
  have lt := Nat.lt_of_le_of_lt le lt
  refine (paced.optionalUpTo (enough.mono (Nat.le_of_lt lt)) _ hR' hi.2).bind fun le hR'' hc => ?_
  refine paced.expect_bind hR'' (.inl rfl) fun _ lt' hR₃ idle' => ?_
  have lt := Nat.lt_trans (Nat.lt_of_lt_of_le lt' le) lt
  refine (paced.optionalUpTo (enough.mono (Nat.le_of_lt lt)) _ hR₃
    (idle' _ (by decide) (by decide))).bind fun le hR₄ hn => ?_
  refine paced.expect_bind hR₄ (.inl rfl) fun _ lt' hR₅ idle'' => ?_
  have lt := Nat.lt_trans (Nat.lt_of_lt_of_le lt' le) lt
  refine (body (Nat.le_of_lt lt) hR₅ (idle'' _ (by decide) (by decide))).bind fun _ hR₆ hs => ?_
  exact .pure hR₆ ⟨forLoop_alike hi.1 hc hn hs.1, Nat.lt_trans hs.2 lt⟩

end

/-! ## The mutual recursion

Statements and declarations together, by induction on the number of tokens ahead. -/

section
variable {s : Parser σ Stmt} {s' : Rule Stmt} {x : Parser σ (Option Stmt)} {y : Rule (Option Stmt)}
  {b b' : Nat} (recovers : Recovers R) (body : ∀ {m}, m < n → Statements R f m s s')
  (each : ∀ {m}, m < n → Declarations R f m x y) (enough : Enough b b' n)
include recovers body each enough

theorem statementOf :
    Statements R f n (Parse.statementOf s x b) (Parse.statementOf s' y b') := by
  intro m c d le h idle
  have shrink {k : Nat} (lt : k < m) : k < n := Nat.lt_of_lt_of_le lt le
  have few {k : Nat} (lt : k < m) : Enough b b' k := enough.mono (Nat.le_of_lt (shrink lt))
  unfold Parse.statementOf
  refine paced.take_bind h idle (by decide) nofun (.inl rfl) (fun _ lt hR _ => ?_) ?_
  · exact (paced.counting (body (shrink lt)) (few lt) hR).mono
      fun _ hs => ⟨hs.1, Nat.lt_trans hs.2 lt⟩
  refine paced.take_bind h idle (by decide) nofun (.inl rfl) (fun _ lt hR _ => ?_) ?_
  · exact (paced.branching (body (shrink lt)) (few lt) hR).mono
      fun _ hs => ⟨hs.1, Nat.lt_trans hs.2 lt⟩
  refine paced.take_bind h idle (by decide) nofun (.inl rfl) (fun _ lt hR _ => ?_) ?_
  · exact (paced.looping (body (shrink lt)) (few lt) hR).mono
      fun _ hs => ⟨hs.1, Nat.lt_trans hs.2 lt⟩
  refine paced.take_bind h idle (by decide) nofun (.inl rfl) (fun _ lt hR idle' => ?_) ?_
  · exact (paced.returned (few lt) _ hR (idle' _ (by decide) (by decide))).mono
      fun _ hs => ⟨hs.1, Nat.lt_trans hs.2 lt⟩
  refine paced.take_bind h idle (by decide) nofun (.inl rfl) (fun _ lt hR idle' => ?_) ?_
  · exact (paced.printed (few lt) hR (idle' _ (by decide) (by decide))).mono
      fun _ hs => ⟨hs.1, Nat.lt_trans hs.2 lt⟩
  refine paced.take_bind h idle (by decide) nofun (.inl rfl) (fun _ lt hR _ => ?_) ?_
  · refine (paced.block recovers (each (shrink lt)) (few lt) hR).map
      fun _ hs => ⟨?_, Nat.lt_trans hs.2 lt⟩
    simp only [Stmt.relabel, Stmt.relabelAll_eq_map, hs.1]
  · exact (paced.expressionStatement (enough.mono le) h idle.literal).mono fun _ hs => hs.1

/-- Any declaration, where there is a token left. -/
theorem declared {m : Nat} (le : m ≤ n) (h : R m c d) (filled : d.rest ≠ []) :
    Abreast R m (Parse.declared s x b) (Parse.declared s' y b') (StmtAlike f m) c d := by
  have idle {kinds : List Kind} : Idle kinds c := paced.idle_of_ne_nil h filled
  have shrink {k : Nat} (lt : k < m) : k < n := Nat.lt_of_lt_of_le lt le
  have few {k : Nat} (lt : k < m) : Enough b b' k := enough.mono (Nat.le_of_lt (shrink lt))
  unfold Parse.declared
  refine paced.take_bind h idle (List.mem_singleton_self _) nofun (.inl rfl)
    (fun _ lt hR _ => ?_) ?_
  · exact (paced.classDeclared hR).mono fun _ hs => ⟨hs.1, Nat.lt_trans hs.2 lt⟩
  refine paced.take_bind h idle (List.mem_singleton_self _) nofun (.inl rfl)
    (fun _ lt hR _ => ?_) ?_
  · exact (paced.functionDeclared recovers (each (shrink lt)) (few lt) hR).mono
      fun _ hs => ⟨hs.1, Nat.lt_trans hs.2 lt⟩
  refine paced.take_bind h idle (List.mem_singleton_self _) nofun (.inl rfl)
    (fun _ lt hR _ => ?_) ?_
  · exact (paced.variableDeclared (few lt) hR).mono
      fun _ hs => ⟨hs.1.1, Nat.lt_trans hs.1.2 lt⟩
  · exact paced.statementOf recovers body each enough le h idle

/-- A fault on one side is a fault on the other, and then both go on at the next statement. -/
theorem declarationOf :
    Declarations R f n (Parse.declarationOf s x b) (Parse.declarationOf s' y b') := by
  intro m c d le h filled
  have read := paced.declared recovers body each enough le h filled
  unfold Abreast at read ⊢
  simp only [Parse.declarationOf, recovering]
  cases hs : Parse.declared s x b c with
  | ok a c' =>
      cases hs' : Parse.declared s' y b' d with
      | error e' d' => simp only [hs, hs'] at read
      | ok a' d' =>
          simp only [hs, hs'] at read ⊢
          obtain ⟨k, hk, hR, same, lt⟩ := read
          exact ⟨k, hk, hR, by simp only [Option.map_some, same], lt⟩
  | error e c' =>
      cases hs' : Parse.declared s' y b' d with
      | ok a' d' => simp only [hs, hs'] at read
      | error e' d' =>
          simp only [hs, hs'] at read ⊢
          obtain ⟨rfl, k, hk, hR⟩ := read
          obtain ⟨j, hj, less, hR'⟩ := recovers.recover e hR
          obtain ⟨t, rest, hd⟩ := List.exists_cons_of_ne_nil filled
          have some := recovers.filled h hd
          exact ⟨j, Nat.le_trans hj hk, hR', trivial, by omega⟩

end

/-- Statements and declarations are read alike from two readers abreast. -/
theorem statement_declaration (recovers : Recovers R) {b b' : Nat} (enough : Enough b b' n) :
    Statements R f n (Parse.statement b) (Parse.statement b') ∧
      Declarations R f n (Parse.declaration b) (Parse.declaration b') := by
  induction b generalizing b' n with
  | zero => exact enough.zero.elim
  | succ b ih =>
      obtain ⟨b', rfl⟩ := enough.succ
      have body {m : Nat} (lt : m < n) := (ih (enough.pred lt)).1
      have each {m : Nat} (lt : m < n) := (ih (enough.pred lt)).2
      exact ⟨paced.statementOf recovers body each enough,
        paced.declarationOf recovers body each enough⟩

/-- A program is read alike from two readers abreast. -/
theorem program (recovers : Recovers R) {b b' : Nat} (enough : Enough b b' n) (h : R n c d) :
    Abreast R n (Parse.program b) (Parse.program b')
      (fun ss ss' _ _ => ss.map (Stmt.relabel f id) = ss'.map (Stmt.relabel f id)) c d :=
  paced.declarations recovers (paced.statement_declaration recovers enough).2 false
    (Nat.le_of_lt enough.1) (Nat.le_of_lt enough.2) h

end Paced

end Lox.Parse
