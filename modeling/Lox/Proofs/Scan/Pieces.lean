import Lox.Scan

/-!
# Cutting a text into lexemes

A text is divided from left to right into pieces without gap or overlap: trivia, tokens, single
characters that begin nothing, and at most one string that never ends, which reaches to the end of
the text.  Each piece is the longest one of its class.  This is what a scan does, but on characters
and with the whole text at hand.

* `Piece` — a piece and its text.
* `Piece.first` — the piece a non-empty text begins with, and the rest.
* `pieces` — the whole division.
* `flatMap_text_pieces` — the texts of the pieces, joined, are the text that was divided.
* `Scan.items` — the items that pieces give.

All classes of characters are ranges of ASCII: the letters of an identifier are `a` to `z`, `A` to
`Z` and the underscore, digits are `0` to `9`, and no blank other than space, tab, carriage return
and line feed is trivia.
-/

namespace Lox

/-- A piece of a text. -/
inductive Piece where
  /-- A blank or a comment. -/
  | trivia (text : List Char)
  | token (kind : Kind) (text : List Char) (payload : kind.Payload)
  /-- A character no piece begins with. -/
  | stray (c : Char)
  /-- A string without its closing quote. -/
  | unterminated (text : List Char)

namespace Piece

/-- The characters of a piece. -/
def text : Piece → List Char
  | trivia text => text
  | token _ text _ => text
  | stray c => [c]
  | unterminated text => text

/-! ## Classes of characters

Written with characters, where the scanner compares bytes. -/

/-- The blanks that separate tokens. -/
def isBlank (c : Char) : Bool :=
  c == ' ' || c == '\t' || c == '\r' || c == '\n'

/-- What an identifier begins with. -/
def isLetter (c : Char) : Bool :=
  c.isAlpha || c == '_'

/-- What an identifier goes on with. -/
def isWordChar (c : Char) : Bool :=
  isLetter c || c.isDigit

/-- Anything but a line feed. -/
def inLine (c : Char) : Bool :=
  c != '\n'

/-- Anything but a quote. -/
def inString (c : Char) : Bool :=
  c != '"'

/-! ## One piece

What begins a text decides the class of its first piece, which then takes all that it can. -/

/-- A word: a keyword if its whole spelling is one, else an identifier. -/
def word (text : List Char) : Piece :=
  match Keyword.ofSpelling? text with
  | some k => .token (.keyword k) text ()
  | none => .token .identifier text ()

/-- A number with whole digits and the digits of a fraction. -/
def number (text whole fraction : List Char) : Piece :=
  .token .number text (Number.ofDecimal (Scan.digitsValue (whole ++ fraction)) fraction.length)

/-- The number that begins with the digit `c`; a point belongs to it only when a digit follows. -/
def firstNumber (c : Char) (cs : List Char) : Piece × List Char :=
  let whole := c :: cs.takeWhile Char.isDigit
  match cs.dropWhile Char.isDigit with
  | '.' :: d :: rest =>
    if d.isDigit then
      let fraction := d :: rest.takeWhile Char.isDigit
      (number (whole ++ '.' :: fraction) whole fraction, rest.dropWhile Char.isDigit)
    else (number whole whole [], '.' :: d :: rest)
  | rest => (number whole whole [], rest)

/-- The string after an opening quote. -/
def firstString (cs : List Char) : Piece × List Char :=
  let contents := cs.takeWhile inString
  match cs.dropWhile inString with
  | [] => (.unterminated ('"' :: contents), [])
  | q :: rest => (.token .string ('"' :: contents ++ [q]) (String.ofList contents), rest)

/-- The symbol that begins with `c`, of two characters if possible. -/
def firstSymbol (c : Char) (cs : List Char) : Piece × List Char :=
  match cs.head?.bind fun d => Symbol.ofSpelling? [c, d] with
  | some s => (.token (.symbol s) s.spelling (), cs.tail)
  | none =>
    match Symbol.ofSpelling? [c] with
    | some s => (.token (.symbol s) s.spelling (), cs)
    | none => (.stray c, cs)

/-- **The piece the text `c :: cs` begins with**, and what follows it. -/
def first (c : Char) (cs : List Char) : Piece × List Char :=
  if isBlank c then (.trivia [c], cs)
  else if c == '/' && cs.head? == some '/' then
    (.trivia (c :: cs.takeWhile inLine), cs.dropWhile inLine)
  else if c == '"' then firstString cs
  else if c.isDigit then firstNumber c cs
  else if isLetter c then (word (c :: cs.takeWhile isWordChar), cs.dropWhile isWordChar)
  else firstSymbol c cs

/-! ## Nothing is lost

A piece and what follows it are the text they were cut from, so cutting leaves no gap and makes no
overlap; since no piece is empty, what follows is shorter.
-/

/-- The digits, with a point and more digits if they follow, and the rest are the text. -/
theorem text_firstNumber (c : Char) (cs : List Char) :
    (firstNumber c cs).1.text ++ (firstNumber c cs).2 = c :: cs := by
  have split := List.takeWhile_append_dropWhile (p := Char.isDigit) (l := cs)
  unfold firstNumber
  split
  next d rest h =>
    have split' := List.takeWhile_append_dropWhile (p := Char.isDigit) (l := rest)
    rw [h] at split
    split
    · simp [number, text, split', split]
    · simp [number, text, split]
  next => simp [number, text, split]

theorem text_firstString (cs : List Char) :
    (firstString cs).1.text ++ (firstString cs).2 = '"' :: cs := by
  have split := List.takeWhile_append_dropWhile (p := inString) (l := cs)
  unfold firstString
  split
  next h => rw [h] at split; simp [text] at *; exact split
  next q rest h => rw [h] at split; simp [text, split]

theorem spelling_of_ofSpelling? {text : List Char} {s : Symbol}
    (h : Symbol.ofSpelling? text = some s) : s.spelling = text := by
  simpa using List.find?_some h

/-- Two characters are taken if they are a symbol together, and else one. -/
theorem text_firstSymbol (c : Char) (cs : List Char) :
    (firstSymbol c cs).1.text ++ (firstSymbol c cs).2 = c :: cs := by
  unfold firstSymbol
  split
  next s h =>
    cases cs with
    | nil => simp at h
    | cons d ds =>
      have both : Symbol.ofSpelling? [c, d] = some s := by simpa using h
      simp [text, spelling_of_ofSpelling? both]
  next =>
    split
    next s h => simp [text, spelling_of_ofSpelling? h]
    next => simp [text]

theorem text_word (cs : List Char) : (word cs).text = cs := by
  unfold word
  split <;> rfl

/-- A piece followed by the rest is the text it was cut from. -/
theorem text_first (c : Char) (cs : List Char) :
    (first c cs).1.text ++ (first c cs).2 = c :: cs := by
  unfold first
  split
  · simp [text]
  split
  · simp [text]
  split
  next h => rw [text_firstString]; simp_all
  split
  · exact text_firstNumber c cs
  split
  · simp [text_word]
  · exact text_firstSymbol c cs

theorem text_first_ne_nil (c : Char) (cs : List Char) : (first c cs).1.text ≠ [] := by
  unfold first
  split
  · simp [text]
  split
  · simp [text]
  split
  · unfold firstString
    split <;> simp [text]
  split
  · unfold firstNumber
    split
    · split <;> simp [number, text]
    · simp [number, text]
  split
  · simp [text_word]
  · unfold firstSymbol
    split
    next s _ => cases s <;> simp [text, Symbol.spelling]
    next =>
      split
      next s _ => cases s <;> simp [text, Symbol.spelling]
      next => simp [text]

/-- Behind a piece less is left than there was. -/
theorem length_rest_first_le (c : Char) (cs : List Char) : (first c cs).2.length ≤ cs.length := by
  have whole := congrArg List.length (text_first c cs)
  have piece := List.length_pos_iff.2 (text_first_ne_nil c cs)
  simp only [List.length_append, List.length_cons] at whole
  omega

end Piece

/-! ## The whole division

Pieces are cut off one after another; as each takes a character at least, the length of the text is
bound enough. -/

/-- The first pieces of a text, at most `n` of them. -/
def piecesWithin : Nat → List Char → List Piece
  | 0, _ => []
  | _, [] => []
  | n + 1, c :: cs =>
    let (piece, rest) := Piece.first c cs
    piece :: piecesWithin n rest

/-- The division of a text into pieces.  No piece is empty, so a text has at most as many pieces
as characters. -/
def pieces (text : List Char) : List Piece :=
  piecesWithin text.length text

/-- The pieces of a text, joined, are the text, whenever the bound is large enough. -/
theorem flatMap_text_piecesWithin {n : Nat} {text : List Char} (h : text.length ≤ n) :
    (piecesWithin n text).flatMap Piece.text = text := by
  induction n generalizing text with
  | zero => simp_all [piecesWithin]
  | succ n ih =>
    cases text with
    | nil => rfl
    | cons c cs =>
      have shorter := Piece.length_rest_first_le c cs
      have rest := @ih (Piece.first c cs).2 (by simp at h; omega)
      simp [piecesWithin, rest, Piece.text_first]

/-- **The pieces of a text, joined, are the text.** -/
theorem flatMap_text_pieces (text : List Char) : (pieces text).flatMap Piece.text = text :=
  flatMap_text_piecesWithin (Nat.le_refl _)

/-- The bound on the number of pieces plays no part. -/
theorem piecesWithin_eq_pieces {n : Nat} {text : List Char} (h : text.length ≤ n) :
    piecesWithin n text = pieces text := by
  suffices ∀ m n (text : List Char), text.length ≤ m → text.length ≤ n →
      piecesWithin n text = piecesWithin m text from this _ _ _ (Nat.le_refl _) h
  intro m
  induction m with
  | zero => intro n text hm _; cases n <;> simp_all [piecesWithin]
  | succ m ih =>
    intro n text hm hn
    cases text with
    | nil => cases n <;> rfl
    | cons c cs =>
      have shorter := Piece.length_rest_first_le c cs
      cases n with
      | zero => simp at hn
      | succ n =>
        simp only [List.length_cons] at hm hn
        simp only [piecesWithin, ih n (Piece.first c cs).2 (by omega) (by omega)]

/-- A division is its first piece and the division of the rest. -/
theorem pieces_cons (c : Char) (cs : List Char) :
    pieces (c :: cs) = (Piece.first c cs).1 :: pieces (Piece.first c cs).2 := by
  rw [← piecesWithin_eq_pieces (Piece.length_rest_first_le c cs)]
  rfl

/-! ## Items of pieces

Trivia gives no item; every other piece gives one, on the line that the text before it, and the
piece itself, lead to. -/

namespace Scan

/-- The item a piece gives, if it is not trivia, when its text ends on the given line. -/
def Item.ofPiece? (line : Nat) : Piece → Option Item
  | .trivia _ => none
  | .token kind text payload => some (token ⟨kind, String.ofList text, line, payload⟩)
  | .stray c => some (fault line (.strayCharacter c))
  | .unterminated _ => some (fault line .unterminatedString)

/-- The items of the pieces that follow a text ending on the given line, and the end token. -/
def items (line : Nat) : List Piece → List Item
  | [] => [.token ⟨.eof, "", line, ()⟩]
  | piece :: rest =>
    let line := line + piece.text.count '\n'
    match Item.ofPiece? line piece with
    | some item => item :: items line rest
    | none => items line rest

end Scan

end Lox
