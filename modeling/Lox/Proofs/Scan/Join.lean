import Lox.Proofs.Tree.Relabel
import Lox.Proofs.Scan.Scanning

/-!
# The scan of joined sources

A line feed ends every piece that has an end at all, so cutting does not look past it.  Two sources
joined by a line feed have the items of the one and then those of the other, on later lines.  A
stray character does not matter to that, and only a string without an end would run on.

The whole argument is about where a cut can see past a line feed, and it can nowhere: words, numbers
and symbols have none in them, comments and blanks end before it or with it, and a string that has
one in it has been closed or runs to the end of the text.  So the only hypothesis is that no string
of the first source is left open, which is what it means that its scan has no fault.  Lines are
dealt with apart, since items on later lines are the items with other lines.

* `pieces_append` — the pieces of joined texts.
* `Scan.items_eq` — the items of pieces are those of each piece and the end token.
* `Scan.body_append_sources` — the items of joined sources, without the end token.
* `Scan.innerTokens_append` — the tokens of joined sources.
* `scan_joined` — **the scan of joined sources**.
-/

namespace Lox

/-! ## Pieces

A piece is cut off in the same way with more text behind a line feed. -/

section
variable {α : Type} {p : α → Bool} {stop : α}

/-- A class that a character is not in stops before it. -/
theorem takeWhile_append_stop (h : p stop = false) (xs ys : List α) :
    (xs ++ stop :: ys).takeWhile p = xs.takeWhile p := by
  induction xs with
  | nil => simp [h]
  | cons x xs ih =>
      rw [List.cons_append, List.takeWhile_cons, List.takeWhile_cons, ih]

/-- What is behind is left as it was. -/
theorem dropWhile_append_stop (h : p stop = false) (xs ys : List α) :
    (xs ++ stop :: ys).dropWhile p = xs.dropWhile p ++ stop :: ys := by
  induction xs with
  | nil => simp [h]
  | cons x xs ih =>
      rw [List.cons_append, List.dropWhile_cons, List.dropWhile_cons, ih]
      split <;> rfl

end

namespace Piece

/-- Whether a piece is one that can be told to be whole. -/
def isEnded : Piece → Bool
  | unterminated _ => false
  | _ => true

variable (rest : List Char)

/-- A string that has an end has the same one. -/
theorem firstString_append {cs : List Char} (h : (firstString cs).1.isEnded = true) :
    firstString (cs ++ '\n' :: rest) = ((firstString cs).1, (firstString cs).2 ++ '\n' :: rest) := by
  have split := List.takeWhile_append_dropWhile (p := inString) (l := cs)
  unfold firstString at h ⊢
  cases hd : cs.dropWhile inString with
  | nil =>
      rw [hd] at h
      cases h
  | cons q after =>
      have stop : inString q = false := by
        have := List.head?_dropWhile_not inString cs
        simpa [hd] using this
      have hall : ∀ c ∈ cs.takeWhile inString, inString c = true := fun c hc =>
        List.all_eq_true.1 List.all_takeWhile c hc
      rw [hd] at split
      have hrest : cs ++ '\n' :: rest = cs.takeWhile inString ++ q :: (after ++ '\n' :: rest) := by
        rw [← List.cons_append, ← List.append_assoc, split]
      rw [hrest, List.takeWhile_append_of_pos hall, List.dropWhile_append_of_pos hall]
      simp [stop]

/-- A number ends before a line feed. -/
theorem firstNumber_append (c : Char) (cs : List Char) :
    firstNumber c (cs ++ '\n' :: rest) =
      ((firstNumber c cs).1, (firstNumber c cs).2 ++ '\n' :: rest) := by
  have stop : Char.isDigit '\n' = false := by decide
  unfold firstNumber
  rw [takeWhile_append_stop stop, dropWhile_append_stop stop]
  rcases cs.dropWhile Char.isDigit with _ | ⟨d, _ | ⟨e, after⟩⟩
  · rfl
  · by_cases hd : d = '.'
    · subst hd
      simp [stop]
    · simp [hd]
  · by_cases hd : d = '.'
    · subst hd
      simp only [List.cons_append, takeWhile_append_stop stop, dropWhile_append_stop stop]
      split <;> rfl
    · simp [hd]

/-- So does a symbol, of one character or of two. -/
theorem firstSymbol_append (c : Char) (cs : List Char) :
    firstSymbol c (cs ++ '\n' :: rest) =
      ((firstSymbol c cs).1, (firstSymbol c cs).2 ++ '\n' :: rest) := by
  have alone : Symbol.ofSpelling? [c, '\n'] = none := by
    simp [Symbol.ofSpelling?, Symbol.all, Symbol.spelling]
  unfold firstSymbol
  cases cs with
  | nil =>
      simp only [List.nil_append, List.head?_cons, Option.bind_some, alone, List.head?_nil,
        Option.bind_none]
      split <;> rfl
  | cons d ds =>
      simp only [List.cons_append, List.head?_cons, Option.bind_some, List.tail_cons]
      split
      · rfl
      · split <;> rfl

/-- A piece that has an end is cut without a look past the line feed that follows its text. -/
theorem first_append (c : Char) (cs : List Char) (h : (first c cs).1.isEnded = true) :
    first c (cs ++ '\n' :: rest) = ((first c cs).1, (first c cs).2 ++ '\n' :: rest) := by
  have slash : (cs ++ '\n' :: rest).head? == some '/' ↔ cs.head? == some '/' := by
    cases cs <;> simp
  unfold first at h ⊢
  simp only [Bool.and_eq_true, slash] at h ⊢
  split
  · rfl
  next blank =>
    rw [if_neg blank] at h
    split
    · have stop : inLine '\n' = false := by decide
      rw [takeWhile_append_stop stop, dropWhile_append_stop stop]
    next comment =>
      rw [if_neg comment] at h
      split
      next quote =>
        rw [if_pos quote] at h
        exact firstString_append rest h
      · split
        · exact firstNumber_append rest c cs
        · split
          · have stop : isWordChar '\n' = false := by decide
            rw [takeWhile_append_stop stop, dropWhile_append_stop stop]
          · exact firstSymbol_append rest c cs

end Piece

/-- **The pieces of texts joined by a line feed**, if every string in the first one ends. -/
theorem pieces_append (text rest : List Char) (h : ∀ p ∈ pieces text, p.isEnded = true) :
    pieces (text ++ '\n' :: rest) = pieces text ++ .trivia ['\n'] :: pieces rest := by
  induction hn : text.length using Nat.strongRecOn generalizing text with
  | ind n ih =>
      cases text with
      | nil => exact pieces_cons '\n' rest
      | cons c cs =>
          rw [pieces_cons] at h ⊢
          obtain ⟨first, others⟩ := List.forall_mem_cons.1 h
          have shorter : (Piece.first c cs).2.length < n := by
            have := Piece.length_rest_first_le c cs
            simp only [List.length_cons] at hn
            omega
          rw [List.cons_append, pieces_cons, Piece.first_append rest c cs first,
            ih _ shorter _ others rfl, List.cons_append]

/-! ## No piece is an end token

The end token is added by the scan, and no text is cut into one. -/

namespace Piece

/-- Whether a piece is no end token. -/
def isInner : Piece → Bool
  | token kind _ _ => kind != .eof
  | _ => true

theorem isInner_first (c : Char) (cs : List Char) : (first c cs).1.isInner = true := by
  unfold first
  split
  · rfl
  split
  · rfl
  split
  · unfold firstString
    split <;> rfl
  split
  · unfold firstNumber
    split
    · split <;> rfl
    · rfl
  split
  · unfold word
    split <;> rfl
  · unfold firstSymbol
    split
    · rfl
    · split <;> rfl

end Piece

theorem isInner_of_mem_pieces {text : List Char} {p : Piece} (h : p ∈ pieces text) :
    p.isInner = true := by
  induction hn : text.length using Nat.strongRecOn generalizing text with
  | ind n ih =>
      cases text with
      | nil => simp [pieces, piecesWithin] at h
      | cons c cs =>
          rw [pieces_cons] at h
          rcases List.mem_cons.1 h with rfl | h
          · exact Piece.isInner_first c cs
          · refine ih _ ?_ h rfl
            have := Piece.length_rest_first_le c cs
            simp only [List.length_cons] at hn
            omega

/-! ## Items

The scan of a source is what its pieces give, one after another, and the end token. -/

namespace Scan

/-- The number of line feeds in some pieces. -/
def lineFeeds (ps : List Piece) : Nat :=
  (ps.flatMap Piece.text).count '\n'

/-- A piece moves the following ones down by its line feeds. -/
theorem lineFeeds_cons (line : Nat) (p : Piece) (ps : List Piece) :
    line + lineFeeds (p :: ps) = line + p.text.count '\n' + lineFeeds ps := by
  simp only [lineFeeds, List.flatMap_cons, List.count_append, Nat.add_assoc]

/-- Together the pieces have the line feeds of the text. -/
theorem lineFeeds_pieces (text : List Char) : lineFeeds (pieces text) = text.count '\n' := by
  rw [lineFeeds, flatMap_text_pieces]

/-- The items of pieces that follow a text ending on the given line. -/
def body (line : Nat) : List Piece → List Item
  | [] => []
  | p :: ps =>
    (Item.ofPiece? (line + p.text.count '\n') p).toList ++ body (line + p.text.count '\n') ps

/-- The end token is the last item. -/
theorem items_eq (line : Nat) (ps : List Piece) :
    items line ps = body line ps ++ [.token ⟨.eof, "", line + lineFeeds ps, ()⟩] := by
  induction ps generalizing line with
  | nil => rfl
  | cons p ps ih =>
      simp only [items, body, lineFeeds_cons]
      cases Item.ofPiece? (line + p.text.count '\n') p with
      | none => exact ih _
      | some item => exact congrArg (item :: ·) (ih _)

/-- The items of pieces that follow each other. -/
theorem body_append (line : Nat) (ps qs : List Piece) :
    body line (ps ++ qs) = body line ps ++ body (line + lineFeeds ps) qs := by
  induction ps generalizing line with
  | nil => rfl
  | cons p ps ih =>
      simp only [List.cons_append, body, ih, lineFeeds_cons, List.append_assoc]

/-- The tokens of a source without the end token. -/
def innerTokens (source : String) : List Token :=
  tokens (body 1 (pieces source.toList))

/-- The end token of a source. -/
def endToken (source : String) : Token :=
  ⟨.eof, "", 1 + source.toList.count '\n', ()⟩

/-- The tokens of a scan are the inner ones and the end token. -/
theorem tokens_scan (source : String) :
    tokens (scan source) = innerTokens source ++ [endToken source] := by
  simp only [scan_eq, items_eq, tokens, List.filterMap_append, lineFeeds_pieces]
  rfl

/-- The faults of a scan are those of its pieces. -/
theorem faults_scan (source : String) :
    faults (scan source) = faults (body 1 (pieces source.toList)) := by
  simp only [scan_eq, items_eq, faults, List.filterMap_append]
  exact List.append_nil _

theorem ne_eof_of_mem_tokens {line : Nat} {ps : List Piece} (h : ∀ p ∈ ps, p.isInner = true)
    {t : Token} (ht : t ∈ tokens (body line ps)) : t.kind ≠ .eof := by
  induction ps generalizing line with
  | nil => simp [tokens, body] at ht
  | cons p ps ih =>
      obtain ⟨hp, hps⟩ := List.forall_mem_cons.1 h
      simp only [tokens, body, List.filterMap_append, List.mem_append] at ht
      rcases ht with ht | ht
      · cases p with
        | token kind text payload =>
            obtain rfl : t = ⟨kind, String.ofList text, _, payload⟩ := by
              simpa [Item.ofPiece?, Item.token?] using ht
            simpa [Piece.isInner] using hp
        | _ => simp [Item.ofPiece?, Item.token?] at ht
      · exact ih hps ht

/-- Only the last token of a source is an end token. -/
theorem ne_eof_of_mem_innerTokens {source : String} {t : Token} (ht : t ∈ innerTokens source) :
    t.kind ≠ .eof :=
  ne_eof_of_mem_tokens (fun _ hp => isInner_of_mem_pieces hp) ht

/-! ## Later lines

A scan that begins on a later line has the same items, as far down. -/

/-- An item on another line. -/
def Item.mapLine (lines : Nat → Nat) : Item → Item
  | token t => token (t.mapLine lines)
  | fault line cause => fault (lines line) cause

theorem tokens_mapLine (lines : Nat → Nat) (its : List Item) :
    tokens (its.map (Item.mapLine lines)) = (tokens its).map (Token.mapLine lines) := by
  simp only [tokens, List.filterMap_map, List.map_filterMap]
  exact congrArg (List.filterMap · its) (funext fun item => by cases item <;> rfl)

theorem faults_mapLine (lines : Nat → Nat) (its : List Item) :
    faults (its.map (Item.mapLine lines)) = [] ↔ faults its = [] := by
  have same (item : Item) : (item.mapLine lines).diagnostic? = none ↔ item.diagnostic? = none := by
    cases item <;> simp [Item.mapLine, Item.diagnostic?]
  simp only [faults, List.filterMap_eq_nil_iff, List.forall_mem_map, same]

/-- **Pieces further down** give the same items on later lines. -/
theorem body_add (line k : Nat) (ps : List Piece) :
    body (line + k) ps = (body line ps).map (Item.mapLine (· + k)) := by
  induction ps generalizing line with
  | nil => rfl
  | cons p ps ih =>
      have hline : line + k + p.text.count '\n' = line + p.text.count '\n' + k := by omega
      simp only [body, hline, ih, List.map_append]
      congr 1
      cases p <;> rfl

/-- All items of a text, some lines down. -/
theorem items_add (line k : Nat) (ps : List Piece) :
    items (line + k) ps = (items line ps).map (Item.mapLine (· + k)) := by
  have hline : line + k + lineFeeds ps = line + lineFeeds ps + k := by omega
  rw [items_eq, items_eq, body_add, List.map_append, hline]
  rfl

theorem tokens_body_add (line k : Nat) (ps : List Piece) :
    tokens (body (line + k) ps) = (tokens (body line ps)).map (Token.mapLine (· + k)) := by
  rw [body_add, tokens_mapLine]

theorem faults_body_add {line k : Nat} {ps : List Piece} (h : faults (body line ps) = []) :
    faults (body (line + k) ps) = [] := by
  rwa [body_add, faults_mapLine]

/-- Every piece has an end if no string is reported to be without one. -/
theorem isEnded_of_forall {line : Nat} {ps : List Piece}
    (h : ∀ line', .fault line' .unterminatedString ∉ body line ps) :
    ∀ p ∈ ps, p.isEnded = true := by
  induction ps generalizing line with
  | nil => simp
  | cons p ps ih =>
      simp only [body, List.mem_append, not_or] at h
      refine List.forall_mem_cons.2 ⟨?_, ih fun line' => (h line').2⟩
      cases p with
      | unterminated text => exact ((h _).1 (List.mem_singleton_self _)).elim
      | _ => rfl

/-- A source without a fault has no string without an end. -/
theorem isEnded_of_faults {line : Nat} {ps : List Piece} (h : faults (body line ps) = []) :
    ∀ p ∈ ps, p.isEnded = true := by
  refine @isEnded_of_forall line ps fun line' unended => ?_
  simpa [Item.diagnostic?] using List.filterMap_eq_nil_iff.1 h _ unended

/-- The items of joined sources, the second on the lines after the first. -/
theorem body_append_sources {a b : String} (ha : ∀ p ∈ pieces a.toList, p.isEnded = true) :
    body 1 (pieces (a ++ "\n" ++ b).toList) =
      body 1 (pieces a.toList) ++ body (1 + (1 + a.toList.count '\n')) (pieces b.toList) := by
  have text : (a ++ "\n" ++ b).toList = a.toList ++ '\n' :: b.toList := by simp
  have hline : 1 + lineFeeds (pieces a.toList) + ['\n'].count '\n' =
      1 + (1 + a.toList.count '\n') := by
    rw [lineFeeds_pieces]
    simp
    omega
  have trivia : body (1 + lineFeeds (pieces a.toList)) (.trivia ['\n'] :: pieces b.toList) =
      body (1 + lineFeeds (pieces a.toList) + ['\n'].count '\n') (pieces b.toList) := rfl
  rw [text, pieces_append _ _ ha, body_append, trivia, hline]

section
variable {a b : String} (ha : faults (scan a) = [])
include ha

/-- **The tokens of sources joined by a line feed** are those of the one and then those of the
other, on later lines. -/
theorem innerTokens_append : innerTokens (a ++ "\n" ++ b) =
    innerTokens a ++ (innerTokens b).map (Token.mapLine (· + (1 + a.toList.count '\n'))) := by
  rw [faults_scan] at ha
  simp only [innerTokens, body_append_sources (isEnded_of_faults ha), ← tokens_body_add]
  simp only [tokens, List.filterMap_append]

/-- Joined sources without faults have none. -/
theorem faults_append (hb : faults (scan b) = []) : faults (scan (a ++ "\n" ++ b)) = [] := by
  rw [faults_scan] at ha hb ⊢
  rw [body_append_sources (isEnded_of_faults ha), faults, List.filterMap_append,
    List.append_eq_nil_iff]
  exact ⟨ha, faults_body_add hb⟩

end

end Scan

open Scan

/-- **The scan of sources joined by a line feed** gives the items of the one, of which only the end
token is lost, and then all those of the other on later lines.  The one may have faults, if it is
not a string that has no end. -/
theorem scan_joined (a b : String)
    (ended : ∀ line, Item.fault line .unterminatedString ∉ scan a) :
    ∃ inner, scan a = inner ++ [.token ⟨.eof, "", 1 + a.toList.count '\n', ()⟩] ∧
      scan (a ++ "\n" ++ b) =
        inner ++ (scan b).map (Item.mapLine (· + (1 + a.toList.count '\n'))) := by
  have whole := scan_eq a
  rw [items_eq, lineFeeds_pieces] at whole
  refine ⟨body 1 (pieces a.toList), whole, ?_⟩
  have ha : ∀ p ∈ pieces a.toList, p.isEnded = true :=
    isEnded_of_forall fun line unended => ended line (whole ▸ List.mem_append_left _ unended)
  have later : 1 + lineFeeds (pieces (a ++ "\n" ++ b).toList) =
      1 + (1 + a.toList.count '\n') + lineFeeds (pieces b.toList) := by
    simp only [lineFeeds_pieces, String.toList_append, List.count_append]
    simp
    omega
  rw [scan_eq, scan_eq, ← items_add, items_eq, items_eq, body_append_sources ha, later,
    List.append_assoc]

/-- No operator is put together over a line feed, and faults on both sides are kept. -/
theorem scan_joined_operator :
    (∀ line, Item.fault line .unterminatedString ∉ scan "@ <") ∧
    ∃ inner, scan "@ <" = inner ++ [.token ⟨.eof, "", 1 + "@ <".toList.count '\n', ()⟩] ∧
      scan ("@ <" ++ "\n" ++ "=\n#") =
        inner ++ (scan "=\n#").map (Item.mapLine (· + (1 + "@ <".toList.count '\n'))) := by
  have only : faults (scan "@ <") = [.lexical 1 (.strayCharacter '@')] := by decide +kernel
  have ended : ∀ line, Item.fault line .unterminatedString ∉ scan "@ <" := fun line unended => by
    have reported : .lexical line .unterminatedString ∈ faults (scan "@ <") :=
      List.mem_filterMap.2 ⟨_, unended, rfl⟩
    rw [only] at reported
    cases List.mem_singleton.1 reported
  exact ⟨ended, scan_joined _ _ ended⟩

end Lox
