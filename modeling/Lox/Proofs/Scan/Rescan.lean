import Lox.Proofs.Scan.Tiling

/-!
# Lexemes are enough to scan again

A token of the lexical grammar is cut out as it is wherever a space or the end of the text comes
next, since a space goes on with no token but a string, which has its closing quote before it.  So
the lexemes of a scan, one space apart, are a source with the same tokens.

What makes this go through is that a piece is known by itself: a lexeme, with a space or nothing
behind it, is the first piece of that text and cut out whole.  So scanning the lexemes with spaces
between them yields the same pieces again, with a space between each two, and the spaces give no
items.

* `Spells.pieces` — a token with a space or nothing behind it.
* `pieces_spaced` — the pieces of lexemes with spaces between them.
* `Scan.HasTokens` — the tokens of a source, lines apart.
* `scan_spaced` — **the lexemes of a source, one space apart, have its tokens**.
-/

namespace Lox

/-! ## One lexeme

One lemma for each class of tokens: a word, a symbol, a number, a string. -/

/-- Nothing, or a text that begins with a space. -/
inductive Parted : List Char → Prop
  | ending : Parted []
  | space (rest : List Char) : Parted (' ' :: rest)

namespace Parted

variable {tail : List Char} {p : Char → Bool} {xs : List Char}

/-- A loop that no space belongs to takes just the text before a space or the end. -/
theorem takeWhile_append (parted : Parted tail) (space : p ' ' = false)
    (h : ∀ x ∈ xs, p x = true) : (xs ++ tail).takeWhile p = xs := by
  rw [List.takeWhile_append_of_pos h]
  cases parted <;> simp [space]

/-- And leaves what is behind. -/
theorem dropWhile_append (parted : Parted tail) (space : p ' ' = false)
    (h : ∀ x ∈ xs, p x = true) : (xs ++ tail).dropWhile p = tail := by
  rw [List.dropWhile_append_of_pos h]
  cases parted <;> simp [space]

end Parted

namespace Piece

variable {tail : List Char} {c : Char} {cs : List Char}

/-- A word is cut out up to the space. -/
theorem first_word_parted (parted : Parted tail) (letter : isLetter c = true)
    (chars : ∀ d ∈ cs, isWordChar d = true) : first c (cs ++ tail) = (word (c :: cs), tail) := by
  have space : isWordChar ' ' = false := by decide
  rw [first_letter letter, parted.takeWhile_append space chars, parted.dropWhile_append space chars]

/-- So is a symbol: no symbol goes on with a space. -/
theorem first_symbol_parted (parted : Parted tail) (s : Symbol) (spelt : s.spelling = c :: cs) :
    first c (cs ++ tail) = (.token (.symbol s) (c :: cs) (), tail) := by
  cases parted with
  | ending => cases s <;> cases spelt <;> rfl
  | space rest => cases s <;> cases spelt <;> rfl

/-- A number without a fraction ends at the space, since no point follows. -/
theorem firstNumber_whole (parted : Parted tail) (digits : ∀ d ∈ cs, d.isDigit = true) :
    firstNumber c (cs ++ tail) = (number (c :: cs) (c :: cs) [], tail) := by
  have space : Char.isDigit ' ' = false := by decide
  unfold firstNumber
  rw [parted.takeWhile_append space digits, parted.dropWhile_append space digits]
  cases parted <;> rfl

/-- One with a fraction ends behind its last digit. -/
theorem firstNumber_fraction (parted : Parted tail) {d : Char} {ds : List Char}
    (digits : ∀ d ∈ cs, d.isDigit = true) (digit' : d.isDigit = true)
    (digits' : ∀ d ∈ ds, d.isDigit = true) :
    firstNumber c (cs ++ '.' :: d :: (ds ++ tail)) =
      (number (c :: cs ++ '.' :: d :: ds) (c :: cs) (d :: ds), tail) := by
  have space : Char.isDigit ' ' = false := by decide
  have point : Char.isDigit '.' = false := by decide
  unfold firstNumber
  rw [List.takeWhile_append_of_pos digits, List.dropWhile_append_of_pos digits]
  simp [point, digit', parted.takeWhile_append space digits',
    parted.dropWhile_append space digits']

end Piece

/-- **A token with a space or nothing behind it** is cut out as it is. -/
theorem Spells.pieces {kind : Kind} {text : List Char} {payload : kind.Payload}
    (h : Spells kind text payload) {tail : List Char} (parted : Parted tail) :
    pieces (text ++ tail) = .token kind text payload :: Lox.pieces tail := by
  suffices ∃ c cs, text = c :: cs ∧
      Piece.first c (cs ++ tail) = (.token kind text payload, tail) by
    obtain ⟨c, cs, rfl, same⟩ := this
    rw [List.cons_append, pieces_cons, same]
  cases h with
  | symbol s =>
      obtain ⟨c, cs, spelt⟩ : ∃ c cs, s.spelling = c :: cs := by
        cases s <;> exact ⟨_, _, rfl⟩
      exact ⟨c, cs, spelt, spelt ▸ Piece.first_symbol_parted parted s spelt⟩
  | keyword k =>
      obtain ⟨c, cs, spelt, letter, chars⟩ : ∃ c cs, k.spelling = c :: cs ∧
          Piece.isLetter c = true ∧ cs.all Piece.isWordChar = true := by
        cases k <;> exact ⟨_, _, rfl, by decide, by decide⟩
      have found := Keyword.ofSpelling?_spelling k
      refine ⟨c, cs, spelt, ?_⟩
      rw [Piece.first_word_parted parted letter (List.all_eq_true.1 chars), Piece.word, ← spelt,
        found]
  | identifier letter chars free =>
      refine ⟨_, _, rfl, ?_⟩
      rw [Piece.first_word_parted parted letter chars, Piece.word]
      split
      next k found => exact absurd (by simpa using List.find?_some found) (free k)
      next => rfl
  | @string contents inside =>
      have chars : ∀ d ∈ contents, Piece.inString d = true := fun d hd =>
        bne_iff_ne.2 fun same => inside (same ▸ hd)
      have stop : Piece.inString '"' = false := by decide
      refine ⟨'"', contents ++ ['"'], rfl, ?_⟩
      rw [Piece.first_quote, Piece.firstString, List.append_assoc,
        List.takeWhile_append_of_pos chars, List.dropWhile_append_of_pos chars]
      simp [stop]
  | whole digit digits =>
      refine ⟨_, _, rfl, ?_⟩
      rw [Piece.first_digit digit, Piece.firstNumber_whole parted digits, Piece.number,
        List.append_nil]
      rfl
  | @fraction c d cs ds digit digits digit' digits' =>
      refine ⟨c, cs ++ '.' :: d :: ds, rfl, ?_⟩
      rw [List.append_assoc, Piece.first_digit digit]
      exact Piece.firstNumber_fraction parted digits digit' digits'

/-! ## Lexemes with spaces between them

By induction on the tokens. -/

/-- The piece that a token was cut out as. -/
def Token.piece (t : Token) : Piece :=
  .token t.kind t.lexeme.toList t.payload

/-- A token is one of the lexical grammar. -/
def Token.Spelt (t : Token) : Prop :=
  Spells t.kind t.lexeme.toList t.payload

/-- The space between two lexemes is a piece of its own. -/
theorem pieces_spaced (ts : List Token) (spelt : ∀ t ∈ ts, t.Spelt) {tail : List Char}
    (parted : Parted tail) :
    pieces ([' '].intercalate (ts.map (·.lexeme.toList)) ++ tail) =
      (ts.map Token.piece).intersperse (.trivia [' ']) ++ pieces tail := by
  induction ts with
  | nil => rfl
  | cons t ts ih =>
      obtain ⟨here, others⟩ := List.forall_mem_cons.1 spelt
      cases ts with
      | nil => simpa [List.intercalate, Token.piece] using here.pieces parted
      | cons t' ts =>
          have space (text : List Char) : pieces (' ' :: text) = .trivia [' '] :: pieces text :=
            pieces_cons ' ' text
          have joined : [' '].intercalate ((t :: t' :: ts).map (·.lexeme.toList)) ++ tail =
              t.lexeme.toList ++
                ' ' :: ([' '].intercalate ((t' :: ts).map (·.lexeme.toList)) ++ tail) := by
            simp [List.intercalate]
          rw [joined, here.pieces (.space _), space, ih others]
          rfl

/-- Every token of a division is one of the lexical grammar. -/
theorem Division.spells {text : List Char} {ps : List Piece} (h : Division text ps) {kind : Kind}
    {text' : List Char} {payload : kind.Payload} (mem : .token kind text' payload ∈ ps) :
    Spells kind text' payload := by
  induction h with
  | nil => cases mem
  | cons cut others ih =>
      rcases List.mem_cons.1 mem with rfl | mem
      · cases cut with
        | token spelt code longest => exact spelt
      · exact ih mem

theorem filterMap_intersperse {α β : Type} {f : α → Option β} {sep : α} (none : f sep = none)
    (xs : List α) : (xs.intersperse sep).filterMap f = xs.filterMap f := by
  match xs with
  | [] => rfl
  | [x] => rfl
  | x :: y :: xs =>
      have others := filterMap_intersperse none (y :: xs)
      rw [List.intersperse_cons_cons, List.filterMap_cons, List.filterMap_cons, none, others,
        ← List.filterMap_cons]

namespace Scan

/-- The tokens of a source other than its end are those of the lexical grammar. -/
theorem spelt_of_mem_innerTokens {source : String} {t : Token} (ht : t ∈ innerTokens source) :
    t.Spelt := by
  have division := division_pieces source.toList
  suffices ∀ (line : Nat) (ps : List Piece), t ∈ tokens (body line ps) → t.piece ∈ ps from
    division.spells (this 1 _ ht)
  intro line ps mem
  induction ps generalizing line with
  | nil => simp [tokens, body] at mem
  | cons p ps ih =>
      simp only [tokens, body, List.filterMap_append, List.mem_append] at mem
      rcases mem with mem | mem
      · cases p with
        | token kind text payload =>
            obtain rfl : t = ⟨kind, String.ofList text, _, payload⟩ := by
              simpa [Item.ofPiece?, Item.token?] using mem
            simp [Token.piece]
        | _ => simp [Item.ofPiece?, Item.token?] at mem
      · exact List.mem_cons_of_mem _ (ih _ mem)

/-- The items of pieces, lines apart, are those of each piece. -/
theorem body_mapLine (line : Nat) (ps : List Piece) :
    (body line ps).map (Item.mapLine fun _ => 0) = ps.filterMap (Item.ofPiece? 0) := by
  induction ps generalizing line with
  | nil => rfl
  | cons p ps ih =>
      rw [body, List.map_append, ih]
      cases p <;> rfl

theorem tokens_token (ts : List Token) : tokens (ts.map .token) = ts := by
  rw [tokens, List.filterMap_map]
  exact List.filterMap_some

theorem faults_token (ts : List Token) : faults (ts.map .token) = [] :=
  List.filterMap_eq_nil_iff.2 (List.forall_mem_map.2 fun _ _ => rfl)

/-- A source has the given tokens, lines apart, and no fault. -/
def HasTokens (source : String) (ts : List Token) : Prop :=
  faults (scan source) = [] ∧
    (tokens (scan source)).map (Token.mapLine fun _ => 0) = ts.map (Token.mapLine fun _ => 0)

/-- Lexemes with spaces between them scan to their tokens. -/
theorem hasTokens_of_spaced {source : String} {ts : List Token} {tail : List Char}
    (tail' : tail = [] ∨ tail = [' ']) (spelt : ∀ t ∈ ts, t.Spelt)
    (h : source.toList = [' '].intercalate (ts.map (·.lexeme.toList)) ++ tail) (line : Nat) :
    HasTokens source (ts ++ [⟨.eof, "", line, ()⟩]) := by
  have parted : Parted tail := by
    rcases tail' with rfl | rfl
    · exact .ending
    · exact .space []
  have ending : (pieces tail).filterMap (Item.ofPiece? 0) = [] := by
    rcases tail' with rfl | rfl <;> rfl
  have its : (body 1 (pieces source.toList)).map (Item.mapLine fun _ => 0) =
      (ts.map (Token.mapLine fun _ => 0)).map .token := by
    rw [body_mapLine, h, pieces_spaced ts spelt parted, List.filterMap_append, ending,
      List.append_nil, filterMap_intersperse rfl, List.filterMap_map, List.map_map,
      ← List.filterMap_eq_map]
    exact congrArg (List.filterMap · ts) (funext fun t => by
      simp [Token.piece, Item.ofPiece?, Token.mapLine])
  constructor
  · rw [faults_scan, ← faults_mapLine fun _ => 0, its, faults_token]
  · rw [tokens_scan, List.map_append, List.map_append, innerTokens, ← tokens_mapLine, its,
      tokens_token]
    rfl

end Scan

open Scan

/-- **The lexemes of a source, one space apart, have its tokens**, with their kinds, lexemes and
payloads, and no fault, whether or not the empty lexeme of the end token is among them.  The source
may have faults itself: they have no lexeme. -/
theorem scan_spaced (source : String) :
    HasTokens (" ".intercalate ((tokens (scan source)).map Token.lexeme)) (tokens (scan source)) ∧
    HasTokens (" ".intercalate ((innerTokens source).map Token.lexeme)) (tokens (scan source)) := by
  have spelt : ∀ t ∈ innerTokens source, t.Spelt := fun t => spelt_of_mem_innerTokens
  rw [tokens_scan, List.map_append]
  constructor
  · by_cases empty : innerTokens source = []
    · exact hasTokens_of_spaced (.inl rfl) spelt (by simp [empty, endToken]) _
    · refine hasTokens_of_spaced (.inr rfl) spelt ?_ _
      rw [List.map_singleton, String.intercalate_append_of_ne_nil (by simpa) (by simp)]
      simp [endToken, Function.comp_def]
  · exact hasTokens_of_spaced (.inl rfl) spelt (by simp [Function.comp_def]) _

end Lox
