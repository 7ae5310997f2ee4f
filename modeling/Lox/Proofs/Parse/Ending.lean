import Lox.Proofs.Parse.Position

/-!
# Where a program ends

Cursors that have the same tokens ahead are abreast, whatever was read from them before, so a parse
depends on nothing but the tokens before the end and the line of the end.

Cursors of the whole list and of the part before its end are beside each other at the start, and
every step keeps that.  The identities may begin elsewhere and other faults may be recorded before;
both make no difference to what is read.

* `Cursor.Beside` — cursors with the same tokens ahead.
* `parseCursor_eq` — a bound that is not used up makes no difference.
* `parse_up_to_end` — **only the part of a list before its end counts**.
-/

namespace Lox

namespace Parse

namespace Cursor

/-- Two cursors have the same `n` tokens ahead.  The identities they give out are the same to `f`,
and since they had `before` and `before'` as their faults, the same ones were recorded. -/
structure Beside (f : NodeId → NodeId) (before before' : List Fault) (n : Nat) (c d : Cursor) :
    Prop where
  rest : c.rest = d.rest
  endLine : c.endLine = d.endLine
  nextNode : f c.nextNode = f d.nextNode
  faults : ∃ faults, c.faults.toList = before ++ faults ∧ d.faults.toList = before' ++ faults
  ahead : d.rest.length = n

variable {f : NodeId → NodeId} {before before' : List Fault} {n : Nat} {c d : Cursor}

/-- Cursors beside each other see the same token, or the same end. -/
theorem Beside.seen (h : Beside f before before' n c d) : c.seen = d.seen := by
  simp only [Cursor.seen, h.rest, h.endLine]

/-- They stay so step by step, while identities are given out in the same order. -/
theorem paced_beside (next : ∀ {i j}, f i = f j → f (i + 1) = f (j + 1)) :
    Paced true f (Beside f before before') where
  atEnd h := by simp only [Reader.atEnd, h.rest]
  seen h hd := by
    refine h.seen.trans ?_
    simp only [Cursor.seen, hd]
  line h := congrArg Token.line h.seen
  advance {n c d t rest} h hd _ := by
    have moved : Beside f before before' rest.length (Reader.advance c) { d with rest } := by
      refine ⟨?_, h.endLine, h.nextNode, h.faults, rfl⟩
      show c.rest.tail = rest
      rw [h.rest, hd, List.tail_cons]
    refine ⟨⟨_, ?_, moved⟩, fun kinds eof _ hend => ?_⟩
    · rw [← h.ahead, hd]
      exact Nat.lt_succ_self _
    · have ends : c.rest.tail = [] := List.isEmpty_iff.1 hend
      show (Cursor.seen { c with rest := c.rest.tail }).kind ∉ kinds
      rwa [ends]
  mint h := ⟨h.nextNode, h.rest, h.endLine, next h.nextNode, h.faults, h.ahead⟩

/-- Recovery leads to the same place in both. -/
theorem recovers_beside : Recovers (Beside f before before') where
  filled h hd := by
    rw [← h.ahead, hd]
    exact Nat.succ_pos _
  recover {n c d} fault h := by
    obtain ⟨faults, hc, hd⟩ := h.faults
    have left : Beside f before before' (afterFault d.rest).length (Reader.recover fault c)
        (Reader.recover fault d) := by
      refine ⟨congrArg afterFault h.rest, h.endLine, h.nextNode, ⟨faults ++ [fault], ?_, ?_⟩, rfl⟩
      · show (c.faults.push fault).toList = _
        rw [Array.toList_push, hc, List.append_assoc]
      · show (d.faults.push fault).toList = _
        rw [Array.toList_push, hd, List.append_assoc]
    refine ⟨_, ?_, fun some => ?_, left⟩
    · rw [← h.ahead]
      exact (afterFault_suffix d.rest).length_le
    · rw [← h.ahead] at some ⊢
      obtain ⟨t, rest, hrest⟩ := List.exists_cons_of_length_pos some
      rw [hrest, afterFault]
      exact Nat.lt_succ_of_le (nextStatement_suffix t.kind rest).length_le

end Cursor

end Parse

open Parse

/-- Bounds above the number of tokens ahead all do the same. -/
theorem parseCursor_eq {b b' : Nat} {c : Cursor} (enough : Enough b b' c.rest.length) :
    parseCursor b c = parseCursor b' c := by
  have same : Cursor.Beside id c.faults.toList c.faults.toList c.rest.length c c :=
    ⟨rfl, rfl, rfl, ⟨[], by simp⟩, rfl⟩
  have abreast :=
    (Cursor.paced_beside (congrArg (· + 1))).program Cursor.recovers_beside enough same
  unfold Abreast at abreast
  unfold parseCursor
  split at abreast
  next ss d ss' d' hd hd' =>
    obtain ⟨m, -, beside, same⟩ := abreast
    obtain ⟨faults, hf, hf'⟩ := beside.faults
    have same : ss = ss' := by rwa [Stmt.map_relabel_id, Stmt.map_relabel_id] at same
    simp only [hd, hd', same, hf, hf', show d.nextNode = d'.nextNode from beside.nextNode]
  next e d e' d' hd hd' =>
    obtain ⟨rfl, m, -, beside⟩ := abreast
    obtain ⟨faults, hf, hf'⟩ := beside.faults
    simp only [hd, hd', Array.toList_push, hf, hf',
      show d.nextNode = d'.nextNode from beside.nextNode]
  next => exact abreast.elim

/-- A list that is cut off at its end, with one end token on the line of the end. -/
theorem start_cut (tokens : List Token) (first : NodeId) :
    start (tokens.takeWhile isInner ++ [⟨.eof, "", endLine tokens, ()⟩]) first =
      start tokens first := by
  have inner : ∀ t ∈ tokens.takeWhile isInner, isInner t = true := fun t ht =>
    List.all_eq_true.1 List.all_takeWhile t ht
  have last : isInner ⟨.eof, "", endLine tokens, ()⟩ = false := rfl
  simp only [start, List.takeWhile_append_of_pos inner, List.takeWhile_cons, last,
    Bool.false_eq_true, if_false, List.append_nil]
  rw [endLine, List.dropWhile_append_of_pos inner, List.dropWhile_cons, last]
  rfl

/-- **Any list of tokens can be parsed, and only its part before the end counts.**  The parse is that
of the tokens before the first end token, followed by a single end token; the line of that is the
line of the first end token, or that of the last token where there is none.  An empty list has
neither statements nor faults.  Wherever the parse is, the tokens it looks up are in the list. -/
theorem parse_up_to_end (tokens : List Token) (first : NodeId) :
    parse tokens first =
      parse (tokens.takeWhile isInner ++ [⟨.eof, "", endLine tokens, ()⟩]) first ∧
    parse [] first = ⟨[], [], first⟩ ∧
    ∀ p : Position, p.tokens[min p.current (p.tokens.size - 1)]? = some p.peek ∧
      p.tokens[p.current - 1]? = some p.previous := by
  refine ⟨?_, rfl, fun p => ⟨Array.getElem?_eq_getElem _, Array.getElem?_eq_getElem _⟩⟩
  rw [parse_eq, parse_eq, start_cut]
  refine parseCursor_eq ⟨?_, ?_⟩
  · exact Nat.lt_succ_of_le (List.takeWhile_sublist _).length_le
  · rw [List.length_append]
    exact Nat.lt_succ_of_le (Nat.le_add_right _ _)

end Lox
