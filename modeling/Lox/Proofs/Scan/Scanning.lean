import Lox.Proofs.Scan.Lexemes

/-!
# Scanning bytes is cutting a text

A call for an item passes over trivia, and stands behind the piece of the item when it is answered.
So the items that are to come are those of the pieces of the rest of the text, at every call.

The invariant is about the items that are still to come (`Scanner.Due`): what the scanner has read
makes no difference to them.  Each call takes the first of them off, whether it is a token or a
fault, and when none is left the end is reported as often as it is asked for.

* `Scanner.Due` — the items that are to come.
* `Due.next?_cons`, `Due.next?_nil` — the answer to a call.
* `scan_eq` — **the scan of a source gives the items of its pieces**.
-/

namespace Lox

theorem Piece.ne_feed_of_stray {c c' : Char} {cs : List Char} (h : (first c cs).1 = .stray c') :
    c' ≠ '\n' := by
  have whole := text_first c cs
  rw [h] at whole
  obtain rfl : c' = c := (List.cons.inj whole).1
  rintro rfl
  simp [first, isBlank] at h

end Lox

namespace Lox.Scan

/-! ## Items -/

namespace Scanner

/-- The items that are still to come. -/
inductive Due : Scanner → List Item → Prop
  | ended {s : Scanner} (h : s.done = true) : s.Due []
  | ahead {s : Scanner} {before rest : List Char} (begun : s.done = false)
      (h : s.At before rest) : s.Due (items s.line (pieces rest))

namespace Due

variable {s : Scanner} {its : List Item}

/-- At the start the items of all pieces of the source are due. -/
theorem ofSource (source : String) : (ofSource source).Due (items 1 (pieces source.toList)) :=
  have start : (Scanner.ofSource source).At [] source.toList := ⟨rfl, rfl⟩
  .ahead rfl start

/-- The call for an item at a text that is not at its end goes past the first piece of it; if this
gives no item, the call goes on. -/
theorem next?_piece {before : List Char} {c : Char} {cs : List Char} (begun : s.done = false)
    (h : s.At before (c :: cs)) :
    s.next? = match Item.ofPiece? (s.line + (Piece.first c cs).1.text.count '\n')
        (Piece.first c cs).1 with
      | some item => some (some item, { s with start := s.pos }.past (Piece.first c cs).1.text)
      | none => next? ({ s with start := s.pos }.past (Piece.first c cs).1.text) := by
  have here : At { s with start := s.pos } before (c :: cs) := ⟨h.text, h.pos⟩
  have step := scanToken_eq_outcome here rfl
  have more : s.atEnd = false := by
    rw [h.ahead.atEnd]
    obtain ⟨b, bs, same, -⟩ := first_byte c
    simp [encode_cons, same]
  rw [next?, if_neg (by simp [begun]), if_neg (by simp [more])]
  cases piece : (Piece.first c cs).1 with
  | token kind text payload =>
      have cut : slice? s.bytes s.pos (s.pos + (encode text).length) =
          some (String.ofList text) := by
        have whole := Piece.text_first c cs
        rw [piece] at whole
        rw [← whole] at h
        rw [h.pos]
        exact h.slice?
      rw [piece] at step
      split
      next taken =>
        obtain ⟨same, rfl⟩ := EStateM.Result.ok.inj (taken.symm.trans step)
        cases same
        exact congrArg (Option.map _) cut
      all_goals simp_all [outcome]
  | trivia text =>
      rw [piece] at step
      split
      next taken => cases taken.symm.trans step
      next taken =>
        rw [(EStateM.Result.ok.inj (taken.symm.trans step)).2]
        rfl
      all_goals simp_all [outcome]
  | stray c' =>
      -- The fault has the line before the character, which is no line feed.
      have line : s.line + List.count '\n' [c'] = s.line := by
        simp [Piece.ne_feed_of_stray piece]
      rw [piece] at step
      split
      next taken => cases taken.symm.trans step
      next taken => cases taken.symm.trans step
      next taken =>
        obtain ⟨same, rfl⟩ := EStateM.Result.error.inj (taken.symm.trans step)
        cases same
        show _ = some (some (Item.fault (s.line + List.count '\n' [c']) _), _)
        rw [line]
        rfl
      next taken => cases taken.symm.trans step
  | unterminated text =>
      rw [piece] at step
      split
      next taken => cases taken.symm.trans step
      next taken => cases taken.symm.trans step
      next taken =>
        obtain ⟨same, rfl⟩ := EStateM.Result.error.inj (taken.symm.trans step)
        cases same
        rfl
      next taken => cases taken.symm.trans step

/-- The call for an item is answered as long as the end token has not been yielded. -/
theorem next?_ahead {before rest : List Char} (begun : s.done = false) (h : s.At before rest) :
    ∃ item later s', items s.line (pieces rest) = item :: later ∧ s.next? = some (some item, s') ∧
      s'.Due later := by
  -- Trivia are passed over within one call.
  induction hn : rest.length using Nat.strongRecOn generalizing s before rest with
  | ind n ih =>
  cases rest with
  | nil =>
      refine ⟨_, [], { s with done := true }, rfl, ?_, .ended rfl⟩
      rw [next?, if_neg (by simp [begun]), h.ahead.atEnd]
      rfl
  | cons c cs =>
      have shorter := Piece.length_rest_first_le c cs
      have step := next?_piece begun h
      rw [← Piece.text_first c cs] at h
      have behind : ({ s with start := s.pos }.past (Piece.first c cs).1.text).At
          (before ++ (Piece.first c cs).1.text) (Piece.first c cs).2 := At.past ⟨h.text, h.pos⟩
      have begun' : ({ s with start := s.pos }.past (Piece.first c cs).1.text).done = false := begun
      rw [pieces_cons, items]
      cases found : Item.ofPiece? (s.line + (Piece.first c cs).1.text.count '\n')
          (Piece.first c cs).1 with
      | none =>
          rw [found] at step
          rw [step]
          exact ih _ (by rw [← hn]; exact Nat.lt_succ_of_le shorter) begun' behind rfl
      | some item =>
          rw [found] at step
          exact ⟨item, _, _, rfl, step, .ahead begun' behind⟩

/-- **The answer to a call for an item is the first of those that are to come.** -/
theorem next?_cons {item : Item} (h : s.Due (item :: its)) :
    ∃ s', s.next? = some (some item, s') ∧ s'.Due its := by
  generalize hi : item :: its = all at h
  cases h with
  | ended h => cases hi
  | ahead begun h =>
      obtain ⟨item', later, s', same, step, due⟩ := next?_ahead begun h
      obtain ⟨rfl, rfl⟩ := List.cons.inj (hi.trans same)
      exact ⟨s', step, due⟩

/-- Behind the last item there is none for ever. -/
theorem next?_nil (h : s.Due []) : s.next? = some (none, s) := by
  generalize hi : [] = its at h
  cases h with
  | ended h => rw [next?, if_pos h]
  | ahead begun h =>
      obtain ⟨_, _, _, same, -⟩ := next?_ahead begun h
      rw [same] at hi
      cases hi

theorem items?_eq (h : s.Due its) : s.items? = some its := by
  induction its generalizing s with
  | nil =>
      have step := h.next?_nil
      rw [items?]
      split <;> simp_all
  | cons item its ih =>
      obtain ⟨s', step, due⟩ := h.next?_cons
      rw [items?]
      split <;> simp_all

end Due

end Scanner

/-- **The scan of a source gives the items of its pieces.** -/
theorem scan_eq (source : String) : scan source = items 1 (pieces source.toList) := by
  rw [scan, (Scanner.Due.ofSource source).items?_eq]
  rfl

end Lox.Scan
