import Lox.Proofs.Scan.Tiling

/-!
# Lines count line feeds

A scanner that stands between two parts of its source is on the line that the line feeds of the
first part lead to (`Scanner.Counts`), and every call for an item passes that on.  Trivia, strings
and comments each move the scanner in their own way, but all of them go past a text, and the lines
gone past are the line feeds in it.  An item has the line of the place where its text ends.

* `Item.ReadOff` — the text that an item is read off.
* `Scanner.Counts.next?` — what a call for an item goes past.
* `items_sorted` — the lines of the items never decrease.
* `tokens_sublist`, `faults_sublist` — so do those of the tokens, and of the faults.
* `lines_count_line_feeds` — **the line of an item counts the line feeds** up to the end of its text.
-/

namespace Lox.Scan

/-! ## Texts of items

An item is read off a piece; a string may have line feeds in it, so the line of an item is the one
its text ends on. -/

/-- An item is read off a text, and the rest of the source follows.  A string ends with its closing
quote; a string without one goes to the end of the source, where the end token is. -/
inductive Item.ReadOff : Item → (text rest : List Char) → Prop
  | string {contents rest : List Char} {line : Nat} (inside : '"' ∉ contents) :
      ReadOff (.token ⟨.string, String.ofList ('"' :: contents ++ ['"']), line,
        String.ofList contents⟩) ('"' :: contents ++ ['"']) rest
  | other {t : Token} {text rest : List Char} (notString : t.kind ≠ .string)
      (notEnd : t.kind ≠ .eof) (lexeme : t.lexeme = String.ofList text) :
      ReadOff (.token t) text rest
  | stray {line : Nat} {c : Char} {rest : List Char} :
      ReadOff (.fault line (.strayCharacter c)) [c] rest
  | unterminated {line : Nat} {contents : List Char} (inside : '"' ∉ contents) :
      ReadOff (.fault line .unterminatedString) ('"' :: contents) []
  | ending {line : Nat} : ReadOff (.token ⟨.eof, "", line, ()⟩) [] []

/-- A token that is cut out is read off its text. -/
theorem Item.ReadOff.of_first {c : Char} {cs text rest : List Char} {kind : Kind}
    {payload : kind.Payload} (line : Nat) (h : (Piece.first c cs).1 = .token kind text payload) :
    ReadOff (.token ⟨kind, String.ofList text, line, payload⟩) text rest := by
  have inner := Piece.isInner_first c cs
  rw [h] at inner
  have notEnd : kind ≠ .eof := by simpa [Piece.isInner] using inner
  by_cases notString : kind = .string
  · subst notString
    cases Spells.of_first h with
    | string inside => exact .string inside
  · exact .other notString notEnd rfl

/-- The item that a piece gives has the line behind it. -/
theorem Item.line_of_piece {piece : Piece} {line : Nat} {item : Item}
    (h : Item.ofPiece? line piece = some item) : item.line = line := by
  cases piece <;> cases h <;> rfl

/-- The item that a piece gives is read off that piece. -/
theorem Item.ReadOff.of_piece {c : Char} {cs : List Char} {line : Nat} {item : Item}
    (h : Item.ofPiece? line (Piece.first c cs).1 = some item) :
    item.ReadOff (Piece.first c cs).1.text (Piece.first c cs).2 := by
  have cut := cut_first c cs
  cases piece : (Piece.first c cs).1 with
  | trivia text =>
      rw [piece] at h
      cases h
  | token kind text payload =>
      rw [piece] at h
      cases h
      exact .of_first line piece
  | stray c' =>
      rw [piece] at h
      cases h
      exact .stray
  | unterminated text =>
      rw [piece] at h cut
      cases h
      generalize (Piece.first c cs).2 = rest at cut
      cases cut with
      | unterminated inside => exact .unterminated inside

/-! ## Calls

A call goes past trivia, if there is any, and past one piece; what it has gone past is counted. -/

namespace Scanner

/-- The scanner stands between the two parts of its source, on the line it has come to. -/
structure Counts (s : Scanner) (before rest : List Char) : Prop extends s.At before rest where
  line : s.line = 1 + before.count '\n'

/-- At the start nothing has been gone past, and the scanner is on line 1. -/
theorem counts_ofSource (source : String) : (ofSource source).Counts [] source.toList :=
  ⟨⟨rfl, rfl⟩, rfl⟩

/-- To go past a text is to go past the line feeds in it. -/
theorem Counts.past {s : Scanner} {before mid rest : List Char}
    (h : s.Counts before (mid ++ rest)) : (s.past mid).Counts (before ++ mid) rest := by
  refine ⟨h.toAt.past, ?_⟩
  show s.line + mid.count '\n' = 1 + (before ++ mid).count '\n'
  rw [h.line, List.count_append, Nat.add_assoc]

/-- **What a call goes past**: some trivia and then the text of the item, which has the line that
the scanner is on behind it. -/
theorem Counts.next? {s : Scanner} {before rest : List Char} (begun : s.done = false)
    (h : s.Counts before rest) : ∃ item s' trivia text later,
      s.next? = some (some item, s') ∧ rest = trivia ++ text ++ later ∧
        item.ReadOff text later ∧ item.line = s'.line ∧
        s'.Counts (before ++ trivia ++ text) later := by
  -- Trivia are passed over within one call.
  induction hn : rest.length using Nat.strongRecOn generalizing s before rest with
  | ind n ih =>
  cases rest with
  | nil =>
      refine ⟨_, { s with done := true }, [], [], [], ?_, rfl, .ending, rfl, ?_⟩
      · rw [Scanner.next?, if_neg (by simp [begun]), h.ahead.atEnd]
        rfl
      · simpa using (⟨⟨h.text, h.pos⟩, h.line⟩ : Counts { s with done := true } before [])
  | cons c cs =>
      have whole := Piece.text_first c cs
      have shorter := Piece.length_rest_first_le c cs
      have step := Due.next?_piece begun h.toAt
      have here : Counts { s with start := s.pos } before
          ((Piece.first c cs).1.text ++ (Piece.first c cs).2) :=
        ⟨⟨whole ▸ h.text, h.pos⟩, h.line⟩
      have behind := here.past
      have begun' : ({ s with start := s.pos }.past (Piece.first c cs).1.text).done = false := begun
      cases found : Item.ofPiece? (s.line + (Piece.first c cs).1.text.count '\n')
          (Piece.first c cs).1 with
      | none =>
          rw [found] at step
          obtain ⟨item, s', trivia, text, later, answer, same, read, line, counts⟩ :=
            ih _ (by rw [← hn]; exact Nat.lt_succ_of_le shorter) begun' behind rfl
          refine ⟨item, s', (Piece.first c cs).1.text ++ trivia, text, later, step.trans answer, ?_,
            read, line, ?_⟩
          · rw [← whole, same]
            simp only [List.append_assoc]
          · simpa only [List.append_assoc] using counts
      | some item =>
          rw [found] at step
          exact ⟨item, _, [], _, _, step, whole.symm, .of_piece found, Item.line_of_piece found,
            (List.append_nil before).symm ▸ behind⟩

/-- The scanner behind a number of calls for the next item. -/
def afterCalls : Nat → Scanner → Option Scanner
  | 0, s => some s
  | n + 1, s => do
    let (_, s') ← s.next?
    afterCalls n s'

/-- Every item that is to come is the answer to a call, which goes past its text. -/
theorem Counts.calls {s : Scanner} {before rest : List Char} {its : List Item}
    (begun : s.done = false) (h : s.Counts before rest) (due : s.Due its) {n : Nat} {item : Item}
    (hn : its[n]? = some item) : ∃ s₁ s₂ passed text later,
      s.afterCalls n = some s₁ ∧ s₁.next? = some (some item, s₂) ∧
        rest = passed ++ text ++ later ∧ item.ReadOff text later ∧ item.line = s₂.line ∧
        s₂.Counts (before ++ passed ++ text) later := by
  induction n generalizing s before rest its with
  | zero =>
      obtain ⟨its, rfl⟩ : ∃ its', its = item :: its' := by
        cases its <;> simp_all
      obtain ⟨s', answer, -⟩ := due.next?_cons
      obtain ⟨item', s₂, trivia, text, later, answer', found⟩ := h.next? begun
      cases answer.symm.trans answer'
      exact ⟨s, s', trivia, text, later, rfl, answer, found⟩
  | succ n ih =>
      obtain ⟨first, its, rfl⟩ : ∃ first its', its = first :: its' := by
        cases its <;> simp_all
      obtain ⟨s', answer, due'⟩ := due.next?_cons
      obtain ⟨item', s₂, trivia, text, later, answer', same, -, -, counts⟩ := h.next? begun
      cases answer.symm.trans answer'
      -- An item is still to come, so this was not the end token.
      have begun' : s'.done = false := by
        refine Bool.eq_false_iff.2 fun ended => ?_
        have none : s'.next? = some (none, s') := by rw [Scanner.next?, if_pos ended]
        cases its with
        | nil => cases hn
        | cons next its =>
            obtain ⟨_, more, -⟩ := due'.next?_cons
            cases none.symm.trans more
      obtain ⟨s₁, s₂, passed, text', later', after, answer, same', found⟩ :=
        ih begun' counts due' hn
      refine ⟨s₁, s₂, trivia ++ text ++ passed, text', later', ?_, answer, ?_, ?_⟩
      · rw [afterCalls, answer']
        exact after
      · rw [same, same']
        simp only [List.append_assoc]
      · simpa only [List.append_assoc] using found

end Scanner

/-! ## The order of lines

Later items are read off later texts, and tokens and faults are both taken from the items in order.
-/

/-- The items of pieces are on the lines that the pieces go over, in order. -/
theorem items_sorted (line : Nat) (ps : List Piece) :
    ((items line ps).map Item.line).Pairwise (· ≤ ·) ∧
      ∀ item ∈ items line ps, line ≤ item.line ∧ item.line ≤ line + lineFeeds ps := by
  induction ps generalizing line with
  | nil => simp [items, Item.line, lineFeeds]
  | cons p ps ih =>
      obtain ⟨sorted, range⟩ := ih (line + p.text.count '\n')
      have feeds := lineFeeds_cons line p ps
      have others : ∀ item ∈ items (line + p.text.count '\n') ps,
          line ≤ item.line ∧ item.line ≤ line + lineFeeds (p :: ps) := fun item hitem =>
        ⟨Nat.le_trans (Nat.le_add_right _ _) (range item hitem).1, feeds ▸ (range item hitem).2⟩
      simp only [items]
      split
      next item found =>
        have line' := Item.line_of_piece found
        refine ⟨?_, List.forall_mem_cons.2 ⟨?_, others⟩⟩
        · rw [List.map_cons, List.pairwise_cons, line']
          exact ⟨List.forall_mem_map.2 fun item hitem => (range item hitem).1, sorted⟩
        · rw [line', feeds]
          exact ⟨Nat.le_add_right _ _, Nat.le_add_right _ _⟩
      next => exact ⟨sorted, others⟩

/-- The items of a source are on its lines, in order. -/
theorem scan_sorted (source : String) : ((scan source).map Item.line).Pairwise (· ≤ ·) ∧
    ∀ item ∈ scan source, 1 ≤ item.line ∧ item.line ≤ 1 + source.toList.count '\n' := by
  rw [scan_eq, ← lineFeeds_pieces]
  exact items_sorted 1 _

/-- What is picked from items and has their lines has them in order. -/
theorem lines_sublist {α : Type} {pick : Item → Option α} {line : α → Nat}
    (kept : ∀ item, ∀ a ∈ pick item, line a = item.line) (its : List Item) :
    ((its.filterMap pick).map line).Sublist (its.map Item.line) := by
  induction its with
  | nil => exact .slnil
  | cons item its ih =>
      rw [List.filterMap_cons]
      cases picked : pick item with
      | none => exact ih.cons _
      | some a =>
          rw [List.map_cons, List.map_cons, kept item a picked]
          exact ih.cons_cons _

/-- The lines of the tokens are lines of the items, in their order. -/
theorem tokens_sublist (its : List Item) :
    ((tokens its).map Token.line).Sublist (its.map Item.line) :=
  lines_sublist (fun item t picked => by cases item <;> cases picked; rfl) its

/-- So are those of the faults. -/
theorem faults_sublist (its : List Item) :
    ((faults its).map Diagnostic.line).Sublist (its.map Item.line) :=
  lines_sublist (fun item d picked => by cases item <;> cases picked; rfl) its

end Lox.Scan

namespace Lox

open Scan

/-- **The line of an item counts the line feeds** up to the end of the text it was read off, which
is where the scanner stands after the call that it answers.  A string is read off up to its closing
quote, a string without one up to the end of the source, and so is the end token.  So the lines
never decrease. -/
theorem lines_count_line_feeds (source : String) :
    (∀ n item, (scan source)[n]? = some item → ∃ s s' before text rest,
      (Scanner.ofSource source).afterCalls n = some s ∧ s.next? = some (some item, s') ∧
      source.toList = before ++ text ++ rest ∧ s'.pos = (encode (before ++ text)).length ∧
      item.ReadOff text rest ∧ item.line = 1 + (before ++ text).count '\n') ∧
    ((scan source).map Item.line).Pairwise (· ≤ ·) := by
  refine ⟨fun n item hn => ?_, (scan_sorted source).1⟩
  rw [scan_eq] at hn
  obtain ⟨s, s', before, text, rest, after, answer, same, read, line, counts⟩ :=
    (Scanner.counts_ofSource source).calls rfl (.ofSource source) hn
  exact ⟨s, s', before, text, rest, after, answer, same, counts.pos, read, line.trans counts.line⟩

/-- A string over two lines has the line of its closing quote. -/
theorem lines_count_line_feeds_string :
    let source := "x // y\n\"a\nb\" \""
    ∃ item, (scan source)[1]? = some item ∧ item.token?.map Token.kind = some .string ∧
      item.line = 3 ∧ ∃ s s' before text rest,
        (Scanner.ofSource source).afterCalls 1 = some s ∧ s.next? = some (some item, s') ∧
        source.toList = before ++ text ++ rest ∧ s'.pos = (encode (before ++ text)).length ∧
        item.ReadOff text rest ∧ item.line = 1 + (before ++ text).count '\n' := by
  intro source
  have second : (scan source)[1]?.map (fun item => (item.token?.map Token.kind, item.line)) =
      some (some .string, 3) := by
    decide +kernel
  obtain ⟨item, found, same⟩ := Option.map_eq_some_iff.1 second
  obtain ⟨kind, line⟩ := Prod.mk.inj same
  exact ⟨item, found, kind, line, (lines_count_line_feeds source).1 1 item found⟩

end Lox
