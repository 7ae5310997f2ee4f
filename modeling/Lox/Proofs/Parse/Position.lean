import Lox.Proofs.Parse.Abreast.Statement

/-!
# What a position shows

A position in a list of tokens and the cursor over the part of the list before its first end token
are abreast: behind the last token of a list without an end token, the last token is still in view,
but no rule takes it a second time, and its line is that of the end.

The parser reads by position, with all tokens in an array at hand, and looks back one token and
ahead one.  The proofs about the grammar read a list from its front.  Here the two are shown to do
the same, on every list and with all its faults: so what is proved of the one is proved of the
other.

* `Position.Shows` — the tokens ahead of a position are those of a cursor.
* `parse_eq` — a list of tokens is parsed as its cursor is.
-/

namespace Lox

namespace Parse

namespace Position

/-- The tokens ahead of a position up to the end, of which there are `n`, and all else that a cursor
holds. -/
structure Shows (n : Nat) (p : Position) (c : Cursor) : Prop where
  rest : c.rest = (p.tokens.toList.drop p.current).takeWhile isInner
  endLine : c.endLine = Parse.endLine p.tokens.toList
  nextNode : c.nextNode = p.nextNode
  faults : c.faults = p.faults
  /-- No end token has been passed. -/
  inner : ∀ t ∈ p.tokens.toList.take p.current, isInner t = true
  ahead : c.rest.length = n

variable {p : Position} {c : Cursor} {n : Nat}

theorem peek_of_lt (h : p.current < p.tokens.size) : p.peek = p.tokens[p.current] := by
  have same : min p.current (p.tokens.size - 1) = p.current := by omega
  simp only [peek, same]

theorem peek_of_le (h : p.tokens.size ≤ p.current) (last : p.tokens.size - 1 < p.tokens.size) :
    p.peek = p.tokens[p.tokens.size - 1] := by
  have same : min p.current (p.tokens.size - 1) = p.tokens.size - 1 := by omega
  simp only [peek, same]

theorem drop_current (h : p.current < p.tokens.size) :
    p.tokens.toList.drop p.current = p.peek :: p.tokens.toList.drop (p.current + 1) := by
  rw [peek_of_lt h, List.drop_eq_getElem_cons (by simpa using h), Array.getElem_toList]

theorem isAtEnd_of_lt (h : p.current < p.tokens.size) : p.isAtEnd = !isInner p.peek := by
  have inside : decide (p.tokens.size ≤ p.current) = false := by simpa using h
  simp only [isAtEnd, inside, Bool.false_or, isInner, bne, Bool.not_not]

namespace Shows

/-- Where there are tokens ahead, the next one is in view, and is no end token. -/
theorem of_cons (h : p.Shows n c) {t : Token} {rest : List Token} (hc : c.rest = t :: rest) :
    p.current < p.tokens.size ∧ p.isAtEnd = false ∧ p.peek = t ∧ isInner t = true ∧
      rest = (p.tokens.toList.drop (p.current + 1)).takeWhile isInner := by
  have hrest := h.rest
  rw [hc] at hrest
  rcases Nat.lt_or_ge p.current p.tokens.size with inside | outside
  · rw [drop_current inside, List.takeWhile_cons] at hrest
    split at hrest
    next inner =>
      obtain ⟨rfl, rfl⟩ := List.cons.inj hrest
      exact ⟨inside, by rw [isAtEnd_of_lt inside, inner, Bool.not_true], rfl, inner, rfl⟩
    next => cases hrest
  · rw [List.drop_eq_nil_of_le (by simpa using outside)] at hrest
    cases hrest

/-- A position is at its end if and only if no token is ahead of the cursor. -/
theorem atEnd (h : p.Shows n c) : p.isAtEnd = c.rest.isEmpty := by
  cases hc : c.rest with
  | cons t rest => exact (h.of_cons hc).2.1
  | nil =>
      have hrest := h.rest
      rw [hc] at hrest
      rcases Nat.lt_or_ge p.current p.tokens.size with inside | outside
      · rw [drop_current inside, List.takeWhile_cons] at hrest
        split at hrest
        next => cases hrest
        next ends =>
          rw [isAtEnd_of_lt inside, Bool.eq_false_iff.2 ends]
          rfl
      · simp [isAtEnd, outside]

/-- At the end, the token in view has the line of the end. -/
theorem line (h : p.Shows n c) : p.peek.line = c.seen.line := by
  cases hc : c.rest with
  | cons t rest =>
      rw [(h.of_cons hc).2.2.1]
      simp only [Cursor.seen, hc]
  | nil =>
      have hend : c.seen.line = Parse.endLine p.tokens.toList := by
        simp only [Cursor.seen, hc, h.endLine]
      have skipped : p.tokens.toList.dropWhile isInner =
          (p.tokens.toList.drop p.current).dropWhile isInner := by
        calc p.tokens.toList.dropWhile isInner
          _ = (p.tokens.toList.take p.current ++ p.tokens.toList.drop p.current).dropWhile
                isInner := by rw [List.take_append_drop]
          _ = _ := List.dropWhile_append_of_pos h.inner
      rw [hend, Parse.endLine, skipped]
      rcases Nat.lt_or_ge p.current p.tokens.size with inside | outside
      · have ends : isInner p.peek = false := by
          have := h.atEnd
          rw [isAtEnd_of_lt inside, hc] at this
          simpa using this
        rw [drop_current inside, List.dropWhile_cons, ends]
        rfl
      · have last : p.tokens.size - 1 < p.tokens.size := Nat.sub_one_lt_of_lt p.nonempty
        rw [List.drop_eq_nil_of_le (by simpa using outside), peek_of_le outside last,
          List.getLast?_eq_getElem?]
        simp [last]

/-- The position behind a token that is not the end. -/
theorem advance (h : p.Shows n c) {t : Token} {rest : List Token} (hc : c.rest = t :: rest) :
    p.advance.Shows rest.length { c with rest } ∧ p.advance.current = p.current + 1 ∧
      p.advance.tokens = p.tokens := by
  obtain ⟨inside, more, seen, inner, hrest⟩ := h.of_cons hc
  have moved : p.advance = { p with current := p.current + 1, bounded := inside } := by
    simp only [Position.advance, more, Bool.false_eq_true, dite_false]
  rw [moved]
  refine ⟨⟨hrest, h.endLine, h.nextNode, h.faults, fun u hu => ?_, rfl⟩, rfl, rfl⟩
  have split : p.tokens.toList.take (p.current + 1) = p.tokens.toList.take p.current ++ [t] := by
    rw [List.take_add_one, ← List.head?_drop, drop_current inside, seen]
    rfl
  have hu : u ∈ p.tokens.toList.take (p.current + 1) := hu
  rw [split, List.mem_append, List.mem_singleton] at hu
  rcases hu with hu | rfl
  · exact h.inner u hu
  · exact inner

/-- Behind a token, what is in view at the end is that token or an end token. -/
theorem idle_advance (h : p.Shows n c) {t : Token} {rest : List Token} (hc : c.rest = t :: rest)
    {kinds : List Kind} (eof : .eof ∉ kinds) (other : t.kind ∉ kinds) : Idle kinds p.advance := by
  obtain ⟨inside, -, seen, -, -⟩ := h.of_cons hc
  obtain ⟨-, current, tokens⟩ := h.advance hc
  intro hend
  show p.advance.peek.kind ∉ kinds
  rcases Nat.lt_or_ge p.advance.current p.advance.tokens.size with inside' | outside
  · have hend : p.advance.isAtEnd = true := hend
    rw [isAtEnd_of_lt inside'] at hend
    have ends : p.advance.peek.kind = .eof := by simpa [isInner] using hend
    rwa [ends]
  · have last : p.advance.peek = t := by
      have size : p.tokens.size - 1 = p.current := by
        rw [current, tokens] at outside
        omega
      rw [peek_of_le outside (Nat.sub_one_lt_of_lt p.advance.nonempty), ← seen, peek_of_lt inside]
      simp only [tokens, size]
    rwa [last]

/-- Recovery goes on to the first place where a statement can begin. -/
theorem toStatement (h : p.Shows n c) :
    ∃ m, p.toStatement.Shows m { c with rest := nextStatement p.previous.kind c.rest } := by
  obtain ⟨rest, endLine, nextNode, faults⟩ := c
  induction rest generalizing p n with
  | nil =>
      rw [Position.toStatement, h.atEnd]
      exact ⟨n, h⟩
  | cons t rest ih =>
      obtain ⟨inside, more, seen, -, -⟩ := h.of_cons rfl
      rw [Position.toStatement, nextStatement, more, seen]
      simp only [Bool.false_eq_true, if_false]
      split
      · exact ⟨n, h⟩
      · obtain ⟨moved, current, tokens⟩ := h.advance rfl
        have previous : p.advance.previous = t := by
          rw [← seen, peek_of_lt inside]
          simp only [Position.previous, current, tokens, Nat.add_sub_cancel]
        have := ih moved
        rwa [previous] at this

end Shows

/-- Recovery goes on at the same token in both, and records the same fault. -/
theorem shows_recover (h : p.Shows n c) (fault : Fault) :
    ∃ m ≤ n, (0 < n → m < n) ∧ (p.recover fault).Shows m (Reader.recover fault c) := by
  have recorded : Shows n { p with faults := p.faults.push fault }
      { c with faults := c.faults.push fault } :=
    ⟨h.rest, h.endLine, h.nextNode, by rw [h.faults], h.inner, h.ahead⟩
  generalize hp : ({ p with faults := p.faults.push fault } : Position) = p' at recorded
  have same : p.recover fault = p'.advance.toStatement := by rw [Position.recover, hp]
  have hend : p'.isAtEnd = c.rest.isEmpty := recorded.atEnd
  rw [same]
  cases hc : c.rest with
  | nil =>
      rw [hc] at hend
      have stays : p'.advance = p' := by
        simp only [Position.advance, hend, List.isEmpty_nil, dite_true]
      have stops : p'.toStatement = p' := by
        rw [Position.toStatement, hend]
        rfl
      rw [stays, stops]
      have left : Reader.recover fault c = { c with faults := c.faults.push fault } := by
        show ({ c with rest := afterFault c.rest, faults := _ } : Cursor) = _
        simp only [hc, afterFault]
      rw [left]
      refine ⟨n, Nat.le_refl n, ?_, recorded⟩
      rw [← h.ahead, hc]
      exact id
  | cons t rest =>
      obtain ⟨moved, current, tokens⟩ := recorded.advance hc
      obtain ⟨inside, -, seen, -, -⟩ := recorded.of_cons hc
      have previous : p'.advance.previous = t := by
        rw [← seen, peek_of_lt inside]
        simp only [Position.previous, current, tokens, Nat.add_sub_cancel]
      obtain ⟨m, shows⟩ := moved.toStatement
      rw [previous] at shows
      have left : Reader.recover fault c =
          { c with rest := nextStatement t.kind rest, faults := c.faults.push fault } := by
        show ({ c with rest := afterFault c.rest, faults := _ } : Cursor) = _
        simp only [hc, afterFault]
      rw [left]
      have ahead : (nextStatement t.kind rest).length = m := shows.ahead
      have le := (nextStatement_suffix t.kind rest).length_le
      have some : c.rest.length = n := h.ahead
      rw [hc, List.length_cons] at some
      exact ⟨m, by omega, by omega, shows⟩

/-- A position and its cursor are abreast. -/
theorem paced : Paced true id Shows where
  atEnd h := h.atEnd
  seen h hc := (h.of_cons hc).2.2.1
  line h := h.line
  advance h hc _ := by
    refine ⟨⟨_, ?_, (h.advance hc).1⟩, fun kinds eof other => h.idle_advance hc eof other⟩
    rw [← h.ahead, hc]
    exact Nat.lt_succ_self _
  mint h := ⟨h.nextNode.symm, h.rest, h.endLine, congrArg (· + 1) h.nextNode, h.faults, h.inner,
    h.ahead⟩

/-- So the two may be read abreast by the rules of the grammar, recovery included. -/
theorem recovers : Recovers Shows where
  filled h hc := by
    rw [← h.ahead, hc]
    exact Nat.succ_pos _
  recover fault h := shows_recover h fault

/-- The position before a list of tokens. -/
def before (tokens : List Token) (first : NodeId) (nonempty : 0 < tokens.toArray.size) : Position :=
  ⟨tokens.toArray, 0, first, #[], nonempty, Nat.le_of_lt nonempty⟩

/-- To begin with, both have the tokens before the first end ahead. -/
theorem shows_before (tokens : List Token) (first : NodeId) (nonempty : 0 < tokens.toArray.size) :
    (before tokens first nonempty).Shows (tokens.takeWhile isInner).length (start tokens first) :=
  ⟨rfl, rfl, rfl, rfl, by simp [before], rfl⟩

end Position

end Parse

open Parse

/-! ## Whole programs

The bound that a program is parsed with is enough for all tokens that are ahead. -/

/-- There are no more tokens before the end than there are tokens. -/
theorem length_inner_lt (tokens : List Token) :
    (tokens.takeWhile isInner).length < tokens.length + 1 :=
  Nat.lt_succ_of_le (List.takeWhile_sublist _).length_le

/-- What a parse comes to that reads from a cursor. -/
def parseCursor (bound : Nat) (c : Cursor) : Parsed :=
  match program bound c with
  | .ok statements c => ⟨statements, c.faults.toList, c.nextNode⟩
  | .error fault c => ⟨[], (c.faults.push fault).toList, c.nextNode⟩

/-- A list of tokens is parsed as the cursor over its part before the first end token is. -/
theorem parse_eq (tokens : List Token) (first : NodeId) :
    parse tokens first = parseCursor (tokens.length + 1) (start tokens first) := by
  unfold parse
  split
  next nonempty =>
    have few := length_inner_lt tokens
    have abreast := Position.paced.program Position.recovers ⟨few, few⟩
      (Position.shows_before tokens first nonempty)
    unfold Abreast Position.before at abreast
    unfold parseCursor
    split at abreast
    next ss p ss' c hp hc =>
      obtain ⟨m, -, shows, same⟩ := abreast
      have same : ss = ss' := by rwa [Stmt.map_relabel_id, Stmt.map_relabel_id] at same
      simp only [hp, hc, same, shows.faults, shows.nextNode]
    next e p e' c hp hc =>
      obtain ⟨rfl, m, -, shows⟩ := abreast
      simp only [hp, hc, shows.faults, shows.nextNode]
    next => exact abreast.elim
  next empty =>
    obtain rfl : tokens = [] := by simpa using empty
    rfl

end Lox
