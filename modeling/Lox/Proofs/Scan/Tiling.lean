import Lox.Proofs.Scan.Join

/-!
# A scan is read off a division of the text

The lexical grammar says which texts are tokens of a kind, and nothing about how one is found.
`Spells.reaches` is the one comparison with the cut of a text: a cut takes a token wherever the text
begins with one, and takes no less of it.  So what is cut out is the longest token there is
(`cut_first`), and a character is left alone only if no token begins with it.

The statement of the theorem must not depend on the scanner, and so neither on pieces as they are
cut.  It is about any division of the text that keeps the rules: a token is as long as any that the
text begins with, a word that is a keyword is one, blanks and comments are what they are, and a
character is left alone if nothing else can be made of it.  That there is such a division is what
the cut shows, and that it is the only way to read the items off is the theorem.

* `Spells` — the lexical grammar.
* `Cut`, `Division` — the rules by which a text is divided.
* `Scan.Scanner.calls` — the answers to calls for items.
* `scan_tiles` — **a scan is read off a division of its source**.
-/

namespace Lox

/-! ## The lexical grammar

Which texts are tokens, and which value they have.  A comment is not a token; that two slashes begin
one is why a slash is not always a symbol. -/

/-- The texts of a kind of token, and what they denote. -/
inductive Spells : (kind : Kind) → List Char → kind.Payload → Prop
  | symbol (s : Symbol) : Spells (.symbol s) s.spelling ()
  | keyword (k : Keyword) : Spells (.keyword k) k.spelling ()
  /-- A word that is no keyword as a whole. -/
  | identifier {c : Char} {cs : List Char} (letter : Piece.isLetter c = true)
      (word : ∀ d ∈ cs, Piece.isWordChar d = true) (free : ∀ k : Keyword, k.spelling ≠ c :: cs) :
      Spells .identifier (c :: cs) ()
  | string {contents : List Char} (inside : '"' ∉ contents) :
      Spells .string ('"' :: contents ++ ['"']) (String.ofList contents)
  | whole {c : Char} {cs : List Char} (digit : c.isDigit = true)
      (digits : ∀ d ∈ cs, d.isDigit = true) :
      Spells .number (c :: cs) (Number.ofDecimal (Scan.digitsValue (c :: cs)) 0)
  /-- Digits on both sides of a point. -/
  | fraction {c d : Char} {cs ds : List Char} (digit : c.isDigit = true)
      (digits : ∀ d ∈ cs, d.isDigit = true) (digit' : d.isDigit = true)
      (digits' : ∀ d ∈ ds, d.isDigit = true) :
      Spells .number (c :: cs ++ '.' :: d :: ds)
        (Number.ofDecimal (Scan.digitsValue (c :: cs ++ d :: ds)) (d :: ds).length)

/-- The piece before some text is the one to be cut out. -/
inductive Cut : Piece → List Char → Prop
  | blank {c : Char} {rest : List Char} (h : c ∈ [' ', '\t', '\r', '\n']) : Cut (.trivia [c]) rest
  /-- A comment goes up to the next line feed. -/
  | comment {body rest : List Char} (inside : '\n' ∉ body)
      (ended : ∀ c ∈ rest.head?, c = '\n') : Cut (.trivia ('/' :: '/' :: body)) rest
  | token {kind : Kind} {text rest : List Char} {payload : kind.Payload}
      (spelt : Spells kind text payload) (code : ¬['/', '/'] <+: text ++ rest)
      (longest : ∀ {kind' text' payload'}, Spells kind' text' payload' → text' <+: text ++ rest →
        text'.length ≤ text.length) : Cut (.token kind text payload) rest
  | stray {c : Char} {rest : List Char} (plain : c ∉ [' ', '\t', '\r', '\n']) (quote : c ≠ '"')
      (other : ∀ {kind text payload}, Spells kind text payload → ¬text <+: c :: rest) :
      Cut (.stray c) rest
  | unterminated {contents : List Char} (inside : '"' ∉ contents) :
      Cut (.unterminated ('"' :: contents)) []

/-- A text is divided from left to right without gap or overlap. -/
inductive Division : List Char → List Piece → Prop
  | nil : Division [] []
  | cons {piece : Piece} {rest : List Char} {ps : List Piece} (cut : Cut piece rest)
      (others : Division rest ps) : Division (piece.text ++ rest) (piece :: ps)

/-! ## What a text begins with

The cut of a text decides by its first character, and so does the grammar. -/

/-- A beginning whose characters are in a class is not longer than what the class takes. -/
theorem length_le_takeWhile {α : Type} {p : α → Bool} {xs ys : List α} (pre : xs <+: ys)
    (h : ∀ x ∈ xs, p x = true) : xs.length ≤ (ys.takeWhile p).length := by
  obtain ⟨zs, rfl⟩ := pre
  rw [List.takeWhile_append_of_pos h, List.length_append]
  exact Nat.le_add_right _ _

namespace Piece

variable {c : Char} {cs : List Char}

theorem isBlank_iff : isBlank c = true ↔ c ∈ [' ', '\t', '\r', '\n'] := by
  simp [isBlank, or_assoc]

/-- What begins a token with a fixed spelling begins no other one. -/
theorem head_spelling (s : Symbol) : ∀ c ∈ s.spelling.head?,
    isBlank c = false ∧ c ≠ '"' ∧ c.isDigit = false ∧ isLetter c = false := by
  intro c head
  cases s <;> cases head <;> decide

/-- A text that begins as a symbol does is cut as one, unless it begins a comment. -/
theorem first_symbol (s : Symbol) (h : c ∈ s.spelling.head?)
    (code : ¬(c = '/' ∧ cs.head? = some '/')) : first c cs = firstSymbol c cs := by
  obtain ⟨blank, quote, digit, letter⟩ := head_spelling s c h
  have comment : (c == '/' && cs.head? == some '/') = false := by simpa using code
  simp only [first, blank, comment, beq_eq_false_iff_ne.2 quote, digit, letter,
    Bool.false_eq_true, if_false]

theorem first_quote : first '"' cs = firstString cs := by
  simp [first, isBlank]

/-- A character of a class is none outside of it. -/
theorem ne_of_class {p : Char → Bool} (h : p c = true) {a : Char} (ha : p a = false) : c ≠ a :=
  fun same => by simp [same, ha] at h

theorem first_digit (h : c.isDigit = true) : first c cs = firstNumber c cs := by
  have blank : isBlank c = false := by
    simp [isBlank, ne_of_class h (a := ' ') rfl, ne_of_class h (a := '\t') rfl,
      ne_of_class h (a := '\r') rfl, ne_of_class h (a := '\n') rfl]
  simp [first, blank, ne_of_class h (a := '/') rfl, ne_of_class h (a := '"') rfl, h]

theorem isDigit_of_isLetter (h : isLetter c = true) : c.isDigit = false :=
  Scan.forall_ascii (fun c => isLetter c = true → c.isDigit = false) (by decide)
    (Scan.isAscii_of_isLetter h) h

theorem first_letter (h : isLetter c = true) :
    first c cs = (word (c :: cs.takeWhile isWordChar), cs.dropWhile isWordChar) := by
  have blank : isBlank c = false := by
    simp [isBlank, ne_of_class h (a := ' ') rfl, ne_of_class h (a := '\t') rfl,
      ne_of_class h (a := '\r') rfl, ne_of_class h (a := '\n') rfl]
  simp [first, blank, ne_of_class h (a := '/') rfl, ne_of_class h (a := '"') rfl,
    isDigit_of_isLetter h, h]

end Piece

namespace Spells

variable {kind : Kind} {text : List Char} {payload : kind.Payload} {c : Char} {cs : List Char}

/-- The word that a text begins with is a token of some kind. -/
theorem of_word (letter : Piece.isLetter c = true) (cs : List Char) : ∃ kind payload,
    Piece.word (c :: cs.takeWhile Piece.isWordChar) =
      .token kind (c :: cs.takeWhile Piece.isWordChar) payload ∧
    Spells kind (c :: cs.takeWhile Piece.isWordChar) payload := by
  have chars : ∀ d ∈ cs.takeWhile Piece.isWordChar, Piece.isWordChar d = true := fun d hd =>
    List.all_eq_true.1 List.all_takeWhile d hd
  unfold Piece.word
  cases hk : Keyword.ofSpelling? (c :: cs.takeWhile Piece.isWordChar) with
  | some k =>
      have spelt : k.spelling = c :: cs.takeWhile Piece.isWordChar := by
        simpa using List.find?_some hk
      exact ⟨_, _, rfl, spelt ▸ .keyword k⟩
  | none =>
      refine ⟨_, _, rfl, .identifier letter chars fun k spelt => ?_⟩
      rw [← spelt, Keyword.ofSpelling?_spelling] at hk
      cases hk

/-- A string that is cut out is one. -/
theorem of_firstString (h : (Piece.firstString cs).1 = .token kind text payload) :
    Spells kind text payload := by
  unfold Piece.firstString at h
  cases hrest : cs.dropWhile Piece.inString with
  | nil =>
      rw [hrest] at h
      cases h
  | cons q rest =>
      have quote : q = '"' := by
        have := List.head?_dropWhile_not Piece.inString cs
        simpa [hrest, Piece.inString] using this
      have inside : '"' ∉ cs.takeWhile Piece.inString := fun hmem => by
        cases List.all_eq_true.1 (List.all_takeWhile (p := Piece.inString)) _ hmem
      rw [hrest, quote] at h
      cases h
      exact .string inside

theorem of_firstNumber (digit : c.isDigit = true)
    (h : (Piece.firstNumber c cs).1 = .token kind text payload) : Spells kind text payload := by
  have whole : Spells .number (c :: cs.takeWhile Char.isDigit) _ := .whole digit Scan.all_isDigit
  unfold Piece.firstNumber at h
  split at h
  next d rest hrest =>
    split at h
    next digit' =>
      cases h
      exact .fraction digit Scan.all_isDigit digit' Scan.all_isDigit
    next =>
      cases h
      simpa using whole
  next =>
    cases h
    simpa using whole

theorem of_firstSymbol (h : (Piece.firstSymbol c cs).1 = .token kind text payload) :
    Spells kind text payload := by
  unfold Piece.firstSymbol at h
  split at h
  next s _ =>
    cases h
    exact .symbol s
  next =>
    split at h
    next s _ =>
      cases h
      exact .symbol s
    next => cases h

/-- The token that a text begins with is one of the lexical grammar. -/
theorem of_first (h : (Piece.first c cs).1 = .token kind text payload) :
    Spells kind text payload := by
  unfold Piece.first at h
  split at h
  next => cases h
  split at h
  next => cases h
  split at h
  next => exact of_firstString h
  split at h
  next digit => exact of_firstNumber digit h
  split at h
  next letter =>
    obtain ⟨kind', payload', same, spelt⟩ := of_word letter cs
    cases same.symm.trans h
    exact spelt
  next => exact of_firstSymbol h

/-! ### No token is longer

Wherever a text begins with a token, the cut takes at least that much of it. -/

/-- A cut takes a token at least as long as some text. -/
def Reaches (c : Char) (cs text : List Char) : Prop :=
  ∃ kind' text' payload', (Piece.first c cs).1 = .token kind' text' payload' ∧
    text.length ≤ text'.length

/-- A word goes on as long as its characters do. -/
theorem reaches_word {word : List Char} (letter : Piece.isLetter c = true)
    (chars : ∀ d ∈ word, Piece.isWordChar d = true) (pre : word <+: cs) :
    Reaches c cs (c :: word) := by
  obtain ⟨kind', payload', same, -⟩ := of_word letter cs
  unfold Reaches
  rw [Piece.first_letter letter]
  exact ⟨_, _, _, same, Nat.succ_le_succ (length_le_takeWhile pre chars)⟩

/-- Symbols: two characters are tried before one. -/
theorem reaches_symbol {s : Symbol} (pre : s.spelling <+: c :: cs)
    (code : ¬(c = '/' ∧ cs.head? = some '/')) : Reaches c cs s.spelling := by
  obtain ⟨c', after, spelt, short⟩ : ∃ c' after, s.spelling = c' :: after ∧ after.length ≤ 1 := by
    cases s <;> exact ⟨_, _, rfl, by decide⟩
  have found := Symbol.ofSpelling?_spelling s
  rw [spelt] at pre found
  obtain ⟨rfl, behind⟩ := List.cons_prefix_cons.1 pre
  have begins : c' ∈ s.spelling.head? := by simp [spelt]
  unfold Reaches
  rw [Piece.first_symbol s begins code, spelt]
  unfold Piece.firstSymbol
  cases longer : cs.head?.bind fun d => Symbol.ofSpelling? [c', d] with
  | some s' =>
      obtain ⟨d, -, both⟩ := Option.bind_eq_some_iff.1 longer
      refine ⟨_, _, _, rfl, ?_⟩
      rw [Piece.spelling_of_ofSpelling? both]
      exact Nat.succ_le_succ short
  | none =>
      -- A symbol of two characters would have been found.
      obtain rfl : after = [] := by
        match after with
        | [] => rfl
        | [d] =>
            obtain ⟨rest, rfl⟩ := behind
            simp [found] at longer
      refine ⟨.symbol s, s.spelling, (), ?_, ?_⟩
      · simp [found]
      · simp [spelt]

/-- Strings end at the first quote. -/
theorem reaches_string {contents : List Char} (inside : '"' ∉ contents)
    (pre : contents ++ ['"'] <+: cs) : Reaches '"' cs ('"' :: contents ++ ['"']) := by
  obtain ⟨rest, rfl⟩ := pre
  have chars : ∀ d ∈ contents, Piece.inString d = true := fun d hd =>
    bne_iff_ne.2 fun same => inside (same ▸ hd)
  unfold Reaches
  rw [Piece.first_quote, Piece.firstString, List.append_assoc, List.takeWhile_append_of_pos chars,
    List.dropWhile_append_of_pos chars]
  exact ⟨_, _, _, rfl, by simp [Piece.inString]⟩

theorem reaches_whole {digits : List Char} (digit : c.isDigit = true)
    (all : ∀ d ∈ digits, d.isDigit = true) (pre : digits <+: cs) : Reaches c cs (c :: digits) := by
  obtain ⟨value, same, -⟩ := Scan.firstNumber_eq cs digit
  have := length_le_takeWhile pre all
  unfold Reaches
  rw [Piece.first_digit digit]
  refine ⟨_, _, _, same, ?_⟩
  simp only [List.cons_append, List.length_cons, List.length_append]
  omega

theorem reaches_fraction {digits fraction : List Char} {d : Char} (digit : c.isDigit = true)
    (all : ∀ d ∈ digits, d.isDigit = true) (digit' : d.isDigit = true)
    (all' : ∀ d ∈ fraction, d.isDigit = true) (pre : digits ++ '.' :: d :: fraction <+: cs) :
    Reaches c cs (c :: digits ++ '.' :: d :: fraction) := by
  obtain ⟨value, same, -⟩ := Scan.firstNumber_eq cs digit
  obtain ⟨rest, rfl⟩ := pre
  have point : Char.isDigit '.' = false := by decide
  have more := length_le_takeWhile (List.prefix_append fraction rest) all'
  unfold Reaches
  rw [Piece.first_digit digit]
  refine ⟨_, _, _, same, ?_⟩
  simp only [List.append_assoc, List.takeWhile_append_of_pos all, List.dropWhile_append_of_pos all,
    List.cons_append, List.takeWhile_cons, List.dropWhile_cons, point, Bool.false_eq_true, if_false,
    Scan.fractionOf, digit', if_true, List.length_cons, List.length_append]
  omega

/-- **A text that begins with a token is cut behind it or further on.** -/
theorem reaches (h : Spells kind text payload) (pre : text <+: c :: cs)
    (code : ¬(c = '/' ∧ cs.head? = some '/')) : Reaches c cs text := by
  cases h with
  | symbol s => exact reaches_symbol pre code
  | keyword k =>
      obtain ⟨a, word, spelt, letter, chars⟩ : ∃ a word, k.spelling = a :: word ∧
          Piece.isLetter a = true ∧ word.all Piece.isWordChar = true := by
        cases k <;> exact ⟨_, _, rfl, by decide, by decide⟩
      rw [spelt] at pre ⊢
      obtain ⟨rfl, behind⟩ := List.cons_prefix_cons.1 pre
      exact reaches_word letter (List.all_eq_true.1 chars) behind
  | identifier letter chars free =>
      obtain ⟨rfl, behind⟩ := List.cons_prefix_cons.1 pre
      exact reaches_word letter chars behind
  | string inside =>
      obtain ⟨rfl, behind⟩ := List.cons_prefix_cons.1 pre
      exact reaches_string inside behind
  | whole digit all =>
      obtain ⟨rfl, behind⟩ := List.cons_prefix_cons.1 pre
      exact reaches_whole digit all behind
  | fraction digit all digit' all' =>
      obtain ⟨rfl, behind⟩ := List.cons_prefix_cons.1 pre
      exact reaches_fraction digit all digit' all' behind

end Spells

/-! ## What is cut out

So the pieces of a text are a division of it. -/

theorem isPrefix_pair {c : Char} {cs : List Char} :
    ['/', '/'] <+: c :: cs ↔ c = '/' ∧ cs.head? = some '/' := by
  cases cs <;> simp [List.cons_prefix_cons, eq_comm]

section
variable {c : Char} {cs : List Char}

/-- What begins no comment, blank or string is a token or begins nothing. -/
theorem first_token_or_stray (blank : Piece.isBlank c = false)
    (code : ¬(c = '/' ∧ cs.head? = some '/')) (quote : c ≠ '"') :
    (∃ kind text payload, (Piece.first c cs).1 = .token kind text payload) ∨
      (Piece.first c cs).1 = .stray c := by
  have comment : (c == '/' && cs.head? == some '/') = false := by simpa using code
  simp only [Piece.first, blank, comment, beq_eq_false_iff_ne.2 quote, Bool.false_eq_true, if_false]
  split
  next digit =>
    obtain ⟨value, same, -⟩ := Scan.firstNumber_eq cs digit
    exact .inl ⟨_, _, _, same⟩
  split
  next letter =>
    obtain ⟨kind, payload, same, -⟩ := Spells.of_word letter cs
    exact .inl ⟨_, _, _, same⟩
  next =>
    unfold Piece.firstSymbol
    split
    next => exact .inl ⟨_, _, _, rfl⟩
    split
    next => exact .inl ⟨_, _, _, rfl⟩
    next => exact .inr rfl

/-- Two slashes and the rest of the line are cut out together. -/
theorem first_comment (code : c = '/' ∧ cs.head? = some '/') :
    Piece.first c cs = (.trivia (c :: cs.takeWhile Piece.inLine), cs.dropWhile Piece.inLine) := by
  obtain ⟨rfl, second⟩ := code
  simp [Piece.first, Piece.isBlank, second]

/-- A token that is cut out is as long as it can be. -/
theorem cut_token {kind : Kind} {text : List Char} {payload : kind.Payload}
    (h : (Piece.first c cs).1 = .token kind text payload) :
    Cut (.token kind text payload) (Piece.first c cs).2 := by
  have whole := Piece.text_first c cs
  have code : ¬(c = '/' ∧ cs.head? = some '/') := fun both => by
    rw [first_comment both] at h
    cases h
  rw [h] at whole
  replace whole : text ++ (Piece.first c cs).2 = c :: cs := whole
  refine .token (.of_first h) (by rwa [whole, isPrefix_pair]) fun spelt pre => ?_
  obtain ⟨kind', text', payload', same, le⟩ := spelt.reaches (whole ▸ pre) code
  cases same.symm.trans h
  exact le

/-- **Every piece is the one to be cut out.** -/
theorem cut_first (c : Char) (cs : List Char) :
    Cut (Piece.first c cs).1 (Piece.first c cs).2 := by
  cases blank : Piece.isBlank c with
  | true =>
      simp only [Piece.first, blank, if_true]
      exact .blank (Piece.isBlank_iff.1 blank)
  | false =>
  by_cases code : c = '/' ∧ cs.head? = some '/'
  · rw [first_comment code]
    obtain ⟨rfl, second⟩ := code
    obtain ⟨cs', rfl⟩ : ∃ cs', cs = '/' :: cs' := by
      cases cs <;> simp_all
    refine .comment (fun hmem => ?_) fun d hd => ?_
    · cases List.all_eq_true.1 (List.all_takeWhile (p := Piece.inLine)) _ hmem
    · have := List.head?_dropWhile_not Piece.inLine ('/' :: cs')
      simpa [Option.mem_def.1 hd, Piece.inLine] using this
  by_cases quote : c = '"'
  · subst quote
    cases closed : cs.dropWhile Piece.inString with
    | nil =>
        rw [Piece.first_quote, Piece.firstString, closed]
        exact .unterminated fun hmem => by
          cases List.all_eq_true.1 (List.all_takeWhile (p := Piece.inString)) _ hmem
    | cons q rest =>
        have token : (Piece.first '"' cs).1 = .token .string
            ('"' :: cs.takeWhile Piece.inString ++ [q])
            (String.ofList (cs.takeWhile Piece.inString)) := by
          rw [Piece.first_quote, Piece.firstString, closed]
        rw [token]
        exact cut_token token
  rcases first_token_or_stray blank code quote with ⟨kind, text, payload, h⟩ | h
  · rw [h]
    exact cut_token h
  · have whole := Piece.text_first c cs
    rw [h] at whole ⊢
    have rest : (Piece.first c cs).2 = cs := (List.cons.inj whole).2
    rw [rest]
    refine .stray (fun hmem => ?_) quote fun spelt pre => ?_
    · rw [Piece.isBlank_iff.2 hmem] at blank
      cases blank
    · obtain ⟨_, _, _, same, -⟩ := spelt.reaches pre code
      cases same.symm.trans h

end

/-- The pieces of a text divide it. -/
theorem division_pieces (text : List Char) : Division text (pieces text) := by
  induction hn : text.length using Nat.strongRecOn generalizing text with
  | ind n ih =>
  cases text with
  | nil => exact .nil
  | cons c cs =>
      have shorter := Piece.length_rest_first_le c cs
      have rest := ih _ (by rw [← hn]; exact Nat.lt_succ_of_le shorter) (Piece.first c cs).2 rfl
      rw [pieces_cons]
      conv => arg 1; rw [← Piece.text_first c cs]
      exact .cons (cut_first c cs) rest

theorem Cut.text_ne_nil {piece : Piece} {rest : List Char} (h : Cut piece rest) :
    piece.text ≠ [] := by
  cases h with
  | token spelt code longest =>
      cases spelt with
      | symbol s => cases s <;> exact List.cons_ne_nil _ _
      | keyword k => cases k <;> exact List.cons_ne_nil _ _
      | _ => exact List.cons_ne_nil _ _
  | _ => exact List.cons_ne_nil _ _

namespace Division

variable {text : List Char} {ps : List Piece}

/-- **The pieces of a division make up the text.** -/
theorem flatMap_text (h : Division text ps) : ps.flatMap Piece.text = text := by
  induction h with
  | nil => rfl
  | cons cut others ih => rw [List.flatMap_cons, ih]

/-- Only the last piece can be a string without its end. -/
theorem isEnded_dropLast (h : Division text ps) : ∀ piece ∈ ps.dropLast, piece.isEnded = true := by
  induction h with
  | nil => simp
  | @cons piece rest ps cut others ih =>
      cases ps with
      | nil => simp
      | cons piece' ps =>
          rw [List.dropLast_cons_cons]
          refine List.forall_mem_cons.2 ⟨?_, ih⟩
          cases cut with
          | unterminated inside =>
              -- Nothing is behind it, but no piece is empty.
              generalize behind : [] = rest at others
              cases others with
              | @cons piece' rest ps cut others =>
                  exact absurd (List.append_eq_nil_iff.1 behind.symm).1 cut.text_ne_nil
          | _ => rfl

end Division

/-! ## Calls

What is asked of the scanner is answered from the items, and with nothing when they are used up. -/

namespace Scan.Scanner

/-- The answers to a number of calls for the next item. -/
def calls : Nat → Scanner → Option (List (Option Item))
  | 0, _ => some []
  | n + 1, s => do
    let (answer, s') ← s.next?
    (answer :: ·) <$> calls n s'

/-- The calls are answered by the items that are to come and then by none. -/
theorem Due.calls {s : Scanner} {its : List Item} (h : s.Due its) (n : Nat) :
    s.calls n = some ((List.range n).map (its[·]?)) := by
  induction n generalizing s its with
  | zero => rfl
  | succ n ih =>
      cases its with
      | nil =>
          rw [Scanner.calls, h.next?_nil, List.range_succ_eq_map]
          simp only [Option.bind_eq_bind, Option.bind_some, ih h, Option.map_eq_map, Option.map_some,
            List.map_cons, List.map_map]
          rfl
      | cons item its =>
          obtain ⟨s', step, due⟩ := h.next?_cons
          rw [Scanner.calls, step]
          simp [ih due, List.range_succ_eq_map]

end Scan.Scanner

/-- **A scan is read off a division of its source**, by which its items are answered one call after
another, the end token last and then nothing. -/
theorem scan_tiles (source : String) : ∃ ps, Division source.toList ps ∧
    ps.flatMap Piece.text = source.toList ∧
    (∀ piece ∈ ps.dropLast, piece.isEnded = true) ∧
    scan source = Scan.items 1 ps ∧
    (∃ inner, Scan.items 1 ps = inner ++ [.token (Scan.endToken source)] ∧
      ∀ t ∈ Scan.tokens inner, t.kind ≠ .eof) ∧
    ∀ n, (Scan.Scanner.ofSource source).calls n =
      some ((List.range n).map ((Scan.items 1 ps)[·]?)) := by
  have division := division_pieces source.toList
  refine ⟨_, division, division.flatMap_text, division.isEnded_dropLast, Scan.scan_eq source,
    ⟨Scan.body 1 (pieces source.toList), ?_, fun t =>
      Scan.ne_eof_of_mem_tokens fun _ => isInner_of_mem_pieces⟩,
    (Scan.Scanner.Due.ofSource source).calls⟩
  rw [Scan.items_eq, Scan.lineFeeds_pieces]
  rfl

end Lox
