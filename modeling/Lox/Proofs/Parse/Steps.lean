import Lox.Proofs.Parse.Cursor

/-!
# Steps of a grammar rule

What each step that rules are made of does to the cursor, so that no later proof opens one.

These are about a rule that has been run: what must have been ahead if a step succeeded, and where
the cursor is then.  They are used where the tokens are not known, as opposed to the lemmas that
compute a step on known tokens.

* `accept_eq_some`, `expect_eq_ok`, … — what a step that succeeded has read.
* `Cursor.Before` — a cursor from which another one can be reached: it leaves a later part of the
  tokens, has given out identities in order, and has only added to the faults.
-/

namespace Lox.Parse

variable {α β : Type}

/-! ## Single steps

One lemma for each step and each way it can end. -/

/-- A rule that fails has no result. -/
@[simp]
theorem fail_eq_ok {fault : SyntaxFault} {a : α} {c d : Cursor} :
    ¬ (fail fault : Rule α) c = .ok a d := by
  simp [fail]

/-- A look at the end changes nothing. -/
theorem ended_eq_ok {b : Bool} {c d : Cursor} (h : ended c = .ok b d) :
    b = c.rest.isEmpty ∧ c = d := by
  simp only [ended, EStateM.Result.ok.injEq] at h
  exact ⟨h.1.symm, h.2⟩

theorem sees_eq_ok {kind : Kind} {b : Bool} {c d : Cursor} (h : sees kind c = .ok b d) :
    b = (c.kind? == some kind) ∧ c = d := by
  simp only [sees, EStateM.Result.ok.injEq] at h
  refine ⟨?_, h.2⟩
  rw [← h.1]
  cases hc : c.rest with
  | nil => simp [Reader.atEnd, Cursor.kind?, hc]
  | cons t rest => simp [Reader.atEnd, Reader.seen, Cursor.seen, Cursor.kind?, hc]

/-- A token that was taken was the next one, and has one of the kinds. -/
theorem acceptAny_eq_some {kinds : List Kind} {t : Token} {c d : Cursor}
    (h : acceptAny kinds c = .ok (some t) d) :
    t.kind ∈ kinds ∧ c.rest = t :: d.rest ∧ d = { c with rest := d.rest } := by
  cases hc : c.rest with
  | nil => simp [acceptAny_nil hc] at h
  | cons u rest =>
      rw [acceptAny_cons hc] at h
      split at h
      next hk =>
        simp only [EStateM.Result.ok.injEq, Option.some.injEq] at h
        obtain ⟨rfl, rfl⟩ := h
        exact ⟨hk, rfl, rfl⟩
      next => simp at h

/-- If none was taken the next one has another kind. -/
theorem acceptAny_eq_none {kinds : List Kind} {c d : Cursor}
    (h : acceptAny kinds c = .ok none d) :
    c = d ∧ ∀ t ∈ c.rest.head?, t.kind ∉ kinds := by
  cases hc : c.rest with
  | nil =>
      rw [acceptAny_nil hc] at h
      exact ⟨by simpa using h, by simp⟩
  | cons u rest =>
      rw [acceptAny_cons hc] at h
      split at h
      next => simp at h
      next hk =>
        simp only [EStateM.Result.ok.injEq, true_and] at h
        exact ⟨h, by simpa using hk⟩

/-- The same for one kind, if a token was taken. -/
theorem accept_eq_some {kind : Kind} {t : Token} {c d : Cursor}
    (h : accept kind c = .ok (some t) d) :
    t.kind = kind ∧ c.rest = t :: d.rest ∧ d = { c with rest := d.rest } := by
  simpa using acceptAny_eq_some h

theorem accept_eq_none {kind : Kind} {c d : Cursor} (h : accept kind c = .ok none d) :
    c = d ∧ ∀ t ∈ c.rest.head?, t.kind ≠ kind := by
  simpa using acceptAny_eq_none h

/-- A token that had to be there was. -/
theorem expect_eq_ok {kind : Kind} {what : Expected} {t : Token} {c d : Cursor}
    (h : expect kind what c = .ok t d) :
    t.kind = kind ∧ c.rest = t :: d.rest ∧ d = { c with rest := d.rest } := by
  unfold expect at h
  obtain ⟨found, e, he, h⟩ := bind_eq_ok.1 h
  cases found with
  | none => simp at h
  | some u =>
      obtain ⟨rfl, rfl⟩ := pure_eq_ok.1 h
      exact accept_eq_some he

/-- A constant that was taken is that of the next token. -/
theorem acceptLiteral_eq_some {value : Literal} {c d : Cursor}
    (h : acceptLiteral c = .ok (some value) d) :
    ∃ t, Literal.ofToken? t = some value ∧ c.rest = t :: d.rest ∧ d = { c with rest := d.rest } := by
  cases hc : c.rest with
  | nil => simp [acceptLiteral_nil hc] at h
  | cons u rest =>
      rw [acceptLiteral_cons hc] at h
      split at h
      next v hv =>
        simp only [EStateM.Result.ok.injEq, Option.some.injEq] at h
        obtain ⟨rfl, rfl⟩ := h
        exact ⟨u, hv, rfl, rfl⟩
      next => simp at h

/-- Without one the cursor has not moved. -/
theorem acceptLiteral_eq_none {c d : Cursor} (h : acceptLiteral c = .ok none d) : c = d := by
  cases hc : c.rest with
  | nil => simpa [acceptLiteral_nil hc] using h
  | cons u rest =>
      rw [acceptLiteral_cons hc] at h
      split at h
      next => simp at h
      next => simpa using h

/-- An identity was the one that was ready. -/
theorem fresh_eq_ok {id : NodeId} {c d : Cursor} (h : fresh c = .ok id d) :
    id = c.nextNode ∧ d = { c with nextNode := c.nextNode + 1 } := by
  simp only [fresh, Reader.mint, EStateM.Result.ok.injEq] at h
  exact ⟨h.1.symm, h.2.symm⟩

/-- Only a variable and a property can be assigned. -/
theorem assignTo_eq_ok {target value e : Expr} {line : Nat} {c d : Cursor}
    (h : assignTo target line value c = .ok e d) :
    (∃ id name, target = .read id name ∧ e = .assign c.nextNode name value ∧
      d = { c with nextNode := c.nextNode + 1 }) ∨
    (∃ object name, target = .get object name ∧ e = .set object name value ∧ c = d) := by
  unfold assignTo at h
  split at h
  next id name =>
    obtain ⟨id', c₁, h₁, h⟩ := bind_eq_ok.1 h
    obtain ⟨rfl, rfl⟩ := pure_eq_ok.1 h
    obtain ⟨rfl, rfl⟩ := fresh_eq_ok h₁
    exact .inl ⟨id, name, rfl, rfl, rfl⟩
  next object name =>
    obtain ⟨rfl, rfl⟩ := pure_eq_ok.1 h
    exact .inr ⟨object, name, rfl, rfl, rfl⟩
  next => cases h

/-- A declaration that gives a statement has recorded no fault of its own. -/
theorem recovering_eq_some {rule : Rule Stmt} {s : Stmt} {c d : Cursor}
    (h : recovering rule c = .ok (some s) d) : rule c = .ok s d := by
  unfold recovering at h
  split at h
  next s' d' hr => simpa [hr] using h
  next => simp at h

/-- A declaration that gives no statement has recorded one fault more. -/
theorem recovering_eq_none {rule : Rule Stmt} {c d : Cursor} (h : recovering rule c = .ok none d) :
    ∃ fault e, rule c = .error fault e ∧
      d = { e with rest := afterFault e.rest, faults := e.faults.push fault } := by
  unfold recovering at h
  split at h
  next => simp at h
  next fault e hr =>
    simp only [EStateM.Result.ok.injEq, true_and] at h
    exact ⟨fault, e, hr, h.symm⟩

/-- A rule that recovers does not fail. -/
theorem recovering_ne_error {rule : Rule Stmt} {fault : Fault} {c d : Cursor} :
    recovering rule c ≠ .error fault d := by
  unfold recovering
  split <;> simp

/-! ## Optional parts

A part that may be missing is read first, and then the rule goes on in one way.
-/

section
variable {σ : Type} [Reader σ]

/-- A `return`, with its value as an optional part. -/
theorem returned_eq (bound : Nat) (keyword : Token) : (returned bound keyword : Parser σ Stmt) = (do
    let value ← optionalUpTo (.symbol .semicolon) bound
    let _ ← expect (.symbol .semicolon) .returnEnd
    return .ret keyword value) := by
  simp only [returned, optionalUpTo, bind_assoc]
  refine congrArg _ (funext fun ends => ?_)
  cases ends <;> rfl

/-- A variable, with its initializer as an optional part. -/
theorem variableDeclared_eq (bound : Nat) : (variableDeclared bound : Parser σ Stmt) = (do
    let name ← expect .identifier .variableName
    let found ← accept (.symbol .equal)
    let initializer ← found.elim (pure none) fun _ => some <$> expression bound
    let _ ← expect (.symbol .semicolon) .variableEnd
    return .var name initializer) := by
  simp only [variableDeclared]
  refine congrArg _ (funext fun name => congrArg _ (funext fun found => ?_))
  cases found <;> rfl

end

/-! ## Declarations one after another

The loop, one round at a time. -/

section
variable {σ : Type} [Reader σ] {x : Parser σ (Option Stmt)} {braced : Bool} {b : Nat} {c : σ}

/-- There is no declaration at the end. -/
theorem declarations_ended (h : Reader.atEnd c = true) : declarations x braced b c = .ok [] c := by
  cases b with
  | zero => rfl
  | succ b =>
      have hend : ended c = .ok true c := congrArg (EStateM.Result.ok · c) h
      rw [declarations, bind_ok hend]
      rfl

/-- Before the end one declaration is read and then the others, up to a brace where one ends
them. -/
theorem declarations_round (h : Reader.atEnd c = false) : declarations x braced (b + 1) c =
    if braced && (Reader.seen c).kind == .symbol .rightBrace then .ok [] c
    else (do
      let first ← x
      let others ← declarations x braced b
      return first.toList ++ others : Parser σ (List Stmt)) c := by
  have hend : ended c = .ok false c := congrArg (EStateM.Result.ok · c) h
  have hbrace : sees (.symbol .rightBrace) c =
      .ok ((Reader.seen c).kind == .symbol .rightBrace) c := by
    simp only [sees, h, Bool.not_false, Bool.true_and]
  rw [declarations, bind_ok hend, bind_ok hbrace, Bool.false_or]
  split <;> rfl

end

/-! ## What can be reached

A relation between cursors that no rule leaves. -/

/-- A cursor from which another one can be reached. -/
structure Cursor.Before (c d : Cursor) : Prop where
  rest : d.rest <:+ c.rest
  endLine : d.endLine = c.endLine
  nextNode : c.nextNode ≤ d.nextNode
  faults : c.faults.toList <+: d.faults.toList

namespace Cursor.Before

theorem refl (c : Cursor) : c.Before c :=
  ⟨List.suffix_refl _, rfl, Nat.le_refl _, List.prefix_refl _⟩

theorem trans {c d e : Cursor} (hcd : c.Before d) (hde : d.Before e) : c.Before e :=
  ⟨hde.rest.trans hcd.rest, hde.endLine.trans hcd.endLine,
    Nat.le_trans hcd.nextNode hde.nextNode, hcd.faults.trans hde.faults⟩

/-- Between two cursors with the same faults none was recorded. -/
theorem faults_eq {c d e : Cursor} (hcd : c.Before d) (hde : d.Before e)
    (h : e.faults = c.faults) : d.faults = c.faults ∧ e.faults = d.faults := by
  have hd : d.faults = c.faults := by
    have le := hcd.faults.length_le
    have ge := hde.faults.length_le
    rw [h] at ge
    exact Array.ext' (hcd.faults.eq_of_length (by omega)).symm
  exact ⟨hd, h.trans hd.symm⟩

end Cursor.Before

/-- To skip to the next statement leaves a later part of the tokens. -/
theorem nextStatement_suffix (last : Kind) (tokens : List Token) :
    nextStatement last tokens <:+ tokens := by
  induction tokens generalizing last with
  | nil => exact List.suffix_refl _
  | cons t rest ih =>
      unfold nextStatement
      split
      · exact List.suffix_refl _
      · exact (ih t.kind).trans (List.suffix_cons t rest)

theorem afterFault_suffix (tokens : List Token) : afterFault tokens <:+ tokens := by
  cases tokens with
  | nil => exact List.suffix_refl _
  | cons t rest => exact (nextStatement_suffix t.kind rest).trans (List.suffix_cons t rest)

end Lox.Parse
