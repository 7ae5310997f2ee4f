import Lox.Proofs.Scan.Places

/-!
# A step takes a piece

The first byte of a lexeme decides as the first character of a piece does: classes of bytes are
compared with classes of characters on the 128 characters of ASCII, and no class has the first byte
of another character (`tests_wide`).  What the loops leave behind is the text of the piece.

A step of the scanner dispatches on one byte, and a piece on one character.  The dispatch is
compared class by class, digits and letters first, then the symbols by the tables of the scanner,
the slash that begins a comment or stands alone, blanks, quotes, and what is left.  Each class then
has its loop, which the lemmas of the module before say to be a `takeWhile` over characters.

* `outcome` — what a step comes to that takes a piece.
* `identifier_eq`, `number_eq`, `string_eq`, `unexpected_eq`, `symbol_eq` — the steps one by one.
* `scanToken_eq_outcome` — **a step takes the piece that the text begins with**.
-/

namespace Lox.Scan

/-! ## Literals

A number is cut out as text and converted.  The conversion of digits is exact, so that the same
value comes of the text of the piece. -/

theorem all_isDigit {cs : List Char} : ∀ c ∈ cs.takeWhile Char.isDigit, c.isDigit = true :=
  fun _ hc => List.all_eq_true.1 List.all_takeWhile _ hc

theorem decimalValue?_whole {whole : List Char} (digits : ∀ c ∈ whole, c.isDigit = true)
    (some : whole ≠ []) :
    decimalValue? whole = .some (Number.ofDecimal (digitsValue whole) 0) := by
  have nonempty : whole.isEmpty = false := by simpa using some
  rw [decimalValue?, ← List.append_nil whole, List.takeWhile_append_of_pos digits,
    List.dropWhile_append_of_pos digits]
  simp [nonempty]

theorem decimalValue?_fraction {whole fraction : List Char}
    (digits : ∀ c ∈ whole, c.isDigit = true) (some : whole ≠ [])
    (digits' : ∀ c ∈ fraction, c.isDigit = true) :
    decimalValue? (whole ++ '.' :: fraction) =
      .some (Number.ofDecimal (digitsValue (whole ++ fraction)) fraction.length) := by
  have nonempty : (whole ++ fraction).isEmpty = false := by simp [some]
  rw [decimalValue?, List.takeWhile_append_of_pos digits, List.dropWhile_append_of_pos digits]
  have point : Char.isDigit '.' = false := by decide
  have all : fraction.all Char.isDigit = true := List.all_eq_true.2 digits'
  simp only [List.takeWhile_cons, List.dropWhile_cons, point, Bool.false_eq_true, if_false,
    List.append_nil, nonempty, all, Bool.not_false, Bool.and_self, if_true]

/-! ## Lexemes

The loops of the scanner, each with the piece it takes. -/

theorem isAscii_of_isDigit {c : Char} (h : c.isDigit = true) : isAscii c = true := by
  simp only [Char.isDigit, Bool.and_eq_true, decide_eq_true_eq, UInt32.le_iff_toNat_le] at h
  have : c.val.toNat ≤ 57 := h.2
  exact decide_eq_true (Nat.lt_of_le_of_lt this (by decide))

theorem isAscii_of_isLetter {c : Char} (h : Piece.isLetter c = true) : isAscii c = true := by
  refine decide_eq_true ?_
  replace h : ((decide ('A'.val ≤ c.val ∧ c.val ≤ 'Z'.val) ||
      (decide ('a'.val ≤ c.val) && decide (c.val ≤ 'z'.val))) || c == '_') = true := h
  simp only [Bool.or_eq_true, Bool.and_eq_true, decide_eq_true_eq, beq_iff_eq] at h
  show c.val.toNat < 128
  rcases h with (⟨-, le⟩ | ⟨-, le⟩) | rfl
  · exact Nat.lt_of_le_of_lt (UInt32.le_iff_toNat_le.1 le) (by decide)
  · exact Nat.lt_of_le_of_lt (UInt32.le_iff_toNat_le.1 le) (by decide)
  · decide

theorem isAscii_of_isWordChar {c : Char} (h : Piece.isWordChar c = true) : isAscii c = true :=
  (Bool.or_eq_true_iff.1 h).elim isAscii_of_isLetter isAscii_of_isDigit

theorem isDigitByte_small {b : UInt8} (h : isDigitByte b = true) : b.toNat < 128 := by
  simp only [isDigitByte, Bool.and_eq_true, decide_eq_true_eq] at h
  exact Nat.lt_of_le_of_lt (UInt8.le_iff_toNat_le.1 h.2) (by decide)

theorem isLetterByte_small {b : UInt8} (h : isLetterByte b = true) : b.toNat < 128 := by
  simp only [isLetterByte, Bool.or_eq_true, Bool.and_eq_true, decide_eq_true_eq, beq_iff_eq] at h
  rcases h with (⟨-, le⟩ | ⟨-, le⟩) | rfl
  · exact Nat.lt_of_le_of_lt (UInt8.le_iff_toNat_le.1 le) (by decide)
  · exact Nat.lt_of_le_of_lt (UInt8.le_iff_toNat_le.1 le) (by decide)
  · decide

/-- The test for digits is the same on bytes and on characters. -/
theorem reads_digits : Reads Char.isDigit isDigitByte :=
  .ascii (fun _ => isDigitByte_small) (fun _ hc => (isDigitByte_ascii hc).symm)
    fun _ => isAscii_of_isDigit

/-- So is the test for what a word is made of. -/
theorem reads_word : Reads Piece.isWordChar wordBytes.has := by
  refine .ascii (fun b hb => ?_) (fun c hc => ?_) fun _ => isAscii_of_isWordChar
  · exact (Bool.or_eq_true_iff.1 hb).elim isLetterByte_small isDigitByte_small
  · show (Piece.isLetter c || c.isDigit) = (isLetterByte c.toUInt8 || isDigitByte c.toUInt8)
    rw [isLetterByte_ascii hc, isDigitByte_ascii hc]

section
variable {s : Scanner} {before : List Char} {c : Char} {cs : List Char}
  (h : s.At before (c :: cs)) (begun : s.start = s.pos)

/-- What a step comes to that takes a piece. -/
def outcome (s : Scanner) : Piece → EStateM.Result Halt Scanner (Option Lexeme)
  | .trivia text => .ok none (s.past text)
  | .token kind text payload => .ok (some ⟨kind, payload⟩) (s.past text)
  | .stray c => .error (.fault s.line (.strayCharacter c)) (s.past [c])
  | .unterminated text => .error (.fault (s.past text).line .unterminatedString) (s.past text)

include h begun

theorem identifier_eq : (some <$> identifier) (s.past [c]) =
    outcome s (Piece.word (c :: cs.takeWhile Piece.isWordChar)) := by
  have after : (s.past [c]).At (before ++ [c]) cs := h.past
  have text : s.At before
      ((c :: cs.takeWhile Piece.isWordChar) ++ cs.dropWhile Piece.isWordChar) := by
    simpa using h
  have cut := text.lexeme begun
  have skipped : (modify (Scanner.skip wordBytes) : Lexer Unit) (s.past [c]) =
      .ok () (s.past (c :: cs.takeWhile Piece.isWordChar)) := by
    show EStateM.Result.ok () ((s.past [c]).skip wordBytes) = _
    rw [after.skip reads_word rfl, Scanner.past_past]
    rfl
  unfold Piece.word
  cases hk : Keyword.ofSpelling? (c :: cs.takeWhile Piece.isWordChar) with
  | some k =>
      refine map_ok (f := some) ((bind_ok skipped).trans ((bind_ok cut).trans ?_))
      simp only [String.toList_ofList, hk]
      rfl
  | none =>
      refine map_ok (f := some) ((bind_ok skipped).trans ((bind_ok cut).trans ?_))
      simp only [String.toList_ofList, hk]
      rfl

/-- The fraction that a text begins with, point included. -/
def fractionOf : List Char → List Char
  | '.' :: d :: rest => if d.isDigit then '.' :: d :: rest.takeWhile Char.isDigit else []
  | _ => []

omit h begun in
/-- A fraction is taken if a digit stands behind the point. -/
theorem fraction_eq {rest : List Char} (h : s.At before rest) :
    fraction s = .ok () (s.past (fractionOf rest)) := by
  have looked (k : Nat) : look k s = .ok (s.look k) s := rfl
  have nothing : s.past [] = s := rfl
  have point := h.look (.eq (a := '.') rfl) rfl
  refine (bind_ok (looked 0)).trans ((bind_ok (looked 1)).trans ?_)
  rw [point]
  rcases rest with _ | ⟨p, rest⟩
  · rfl
  by_cases hp : p = '.'
  · subst hp
    have second : s.look 1 = (encode rest)[0]?.getD 0 := h.ahead.look 1
    rw [second, reads_digits.head_encode rfl]
    cases rest with
    | nil => rfl
    | cons d rest =>
        cases digit : d.isDigit with
        | true =>
            have behind : (s.past ['.']).At (before ++ ['.']) (d :: rest) := h.past
            have advanced : advance s = .ok () (s.past ['.']) :=
              congrArg (EStateM.Result.ok ()) (Scanner.bump_eq rfl (by decide))
            simp only [fractionOf, digit, List.head?_cons, Option.map_some, Option.getD_some,
              beq_self_eq_true, Bool.and_self, if_true]
            refine (bind_ok advanced).trans ?_
            show EStateM.Result.ok () ((s.past ['.']).skip digits) = _
            rw [behind.skip reads_digits rfl, Scanner.past_past, List.takeWhile_cons, digit]
            rfl
        | false =>
            simp only [fractionOf, digit, List.head?_cons, Option.map_some, Option.getD_some,
              Bool.and_false, Bool.false_eq_true, if_false, nothing]
            rfl
  · have other : (p == '.') = false := beq_eq_false_iff_ne.2 hp
    have none : fractionOf (p :: rest) = [] := by
      unfold fractionOf
      split
      next heq => exact absurd (List.cons.inj heq).1 hp
      next => rfl
    simp only [none, other, List.head?_cons, Option.map_some, Option.getD_some, Bool.false_and,
      Bool.false_eq_true, if_false, nothing]
    rfl

omit begun h in
variable (cs) in
/-- The piece of a number has that text, and its value. -/
theorem firstNumber_eq (digit : c.isDigit = true) : ∃ value,
    (Piece.firstNumber c cs).1 = .token .number
      (c :: cs.takeWhile Char.isDigit ++ fractionOf (cs.dropWhile Char.isDigit)) value ∧
    decimalValue? (c :: cs.takeWhile Char.isDigit ++ fractionOf (cs.dropWhile Char.isDigit)) =
      some value := by
  have digits : ∀ c' ∈ c :: cs.takeWhile Char.isDigit, c'.isDigit = true :=
    List.forall_mem_cons.2 ⟨digit, all_isDigit⟩
  have whole := decimalValue?_whole digits (List.cons_ne_nil _ _)
  unfold Piece.firstNumber
  split
  next d rest hrest =>
    rw [hrest]
    cases digit' : d.isDigit with
    | true =>
        have digits' : ∀ c' ∈ d :: rest.takeWhile Char.isDigit, c'.isDigit = true :=
          List.forall_mem_cons.2 ⟨digit', all_isDigit⟩
        simp only [fractionOf, digit', if_true]
        exact ⟨_, rfl, decimalValue?_fraction digits (List.cons_ne_nil _ _) digits'⟩
    | false =>
        simp only [fractionOf, digit', Bool.false_eq_true, if_false, List.append_nil]
        refine ⟨_, rfl, ?_⟩
        rw [whole, List.append_nil]
        rfl
  next other =>
    have none : fractionOf (cs.dropWhile Char.isDigit) = [] := by
      unfold fractionOf
      split
      next heq => exact absurd heq (other _ _)
      next => rfl
    rw [none, List.append_nil]
    refine ⟨_, rfl, ?_⟩
    rw [whole, List.append_nil]
    rfl

theorem number_eq (digit : c.isDigit = true) :
    (some <$> number) (s.past [c]) = outcome s (Piece.firstNumber c cs).1 := by
  have after : (s.past [c]).At (before ++ [c]) cs := h.past
  have skipped : (modify (Scanner.skip digits) : Lexer Unit) (s.past [c]) =
      .ok () (s.past (c :: cs.takeWhile Char.isDigit)) := by
    show EStateM.Result.ok () ((s.past [c]).skip digits) = _
    rw [after.skip reads_digits rfl, Scanner.past_past]
    rfl
  have behind : (s.past (c :: cs.takeWhile Char.isDigit)).At
      (before ++ (c :: cs.takeWhile Char.isDigit)) (cs.dropWhile Char.isDigit) := by
    refine Scanner.At.past ?_
    simpa using h
  obtain ⟨value, same, read⟩ := firstNumber_eq cs digit
  have went := fraction_eq behind
  rw [Scanner.past_past] at went
  have text : s.At before ((c :: cs.takeWhile Char.isDigit ++
      fractionOf (cs.dropWhile Char.isDigit)) ++ (Piece.firstNumber c cs).2) := by
    have := Piece.text_firstNumber c cs
    rw [same] at this
    rwa [← show _ = c :: cs from this] at h
  rw [same]
  refine map_ok (f := some) ((bind_ok skipped).trans ((bind_ok went).trans
    ((bind_ok (text.lexeme begun)).trans ?_)))
  rw [String.toList_ofList, read]
  rfl

/-- A string, or one that has no end. -/
theorem string_eq (quote : c = '"') :
    (some <$> string) (s.past [c]) = outcome s (Piece.firstString cs).1 := by
  subst quote
  have after : (s.past ['"']).At (before ++ ['"']) cs := h.past
  have skipped : (modify Scanner.untilQuote : Lexer Unit) (s.past ['"']) =
      .ok () (s.past ('"' :: cs.takeWhile Piece.inString)) := by
    show EStateM.Result.ok () ((s.past ['"']).untilQuote) = _
    rw [after.untilQuote, Scanner.past_past]
    rfl
  have behind : (s.past ('"' :: cs.takeWhile Piece.inString)).At
      (before ++ ('"' :: cs.takeWhile Piece.inString)) (cs.dropWhile Piece.inString) := by
    refine Scanner.At.past ?_
    simpa using h
  have ended := behind.ahead.atEnd
  have got (s : Scanner) : (get : Lexer Scanner) s = .ok s s := rfl
  unfold Piece.firstString
  cases hrest : cs.dropWhile Piece.inString with
  | nil =>
      rw [hrest] at ended
      refine map_error ((bind_ok skipped).trans ((bind_ok (got _)).trans ?_))
      simp only [ended, encode_nil, List.isEmpty_nil, if_true]
      rfl
  | cons q rest =>
      rw [hrest] at ended behind
      have hq : q = '"' := by
        have := List.head?_dropWhile_not Piece.inString cs
        simpa [hrest, Piece.inString] using this
      subst hq
      have more : (encode ('"' :: rest)).isEmpty = false := rfl
      have advanced : advance (s.past ('"' :: cs.takeWhile Piece.inString)) =
          .ok () (s.past ('"' :: cs.takeWhile Piece.inString ++ ['"'])) := by
        rw [← Scanner.past_past]
        exact congrArg (EStateM.Result.ok ()) (Scanner.bump_eq rfl (by decide))
      refine map_ok (f := some) ((bind_ok skipped).trans ((bind_ok (got _)).trans ?_))
      simp only [ended, more, Bool.false_eq_true, if_false]
      refine (bind_ok advanced).trans ((bind_ok (got _)).trans (bind_ok ?_))
      have contents : cs = cs.takeWhile Piece.inString ++ '"' :: rest := by
        rw [← hrest, List.takeWhile_append_dropWhile]
      rw [contents] at after
      have cut := after.slice?
      have start : (encode (before ++ ['"'])).length = s.start + 1 := by
        rw [encode_append, List.length_append, ← h.pos, begun]
        rfl
      have last : s.start + 1 + (encode (cs.takeWhile Piece.inString)).length =
          (s.past ('"' :: cs.takeWhile Piece.inString ++ ['"'])).pos - 1 := by
        show _ = s.pos + (encode (['"'] ++ cs.takeWhile Piece.inString ++ ['"'])).length - 1
        rw [encode_append, encode_append, List.length_append, List.length_append, begun]
        show _ = s.pos + (1 + _ + 1) - 1
        omega
      rw [start, last] at cut
      exact slice_eq_ok cut

/-- A character that begins nothing. -/
theorem unexpected_eq (line : c ≠ '\n') :
    (some <$> unexpected) { s with pos := s.pos + 1 } = outcome s (.stray c) := by
  have all : s.At before ((c :: cs) ++ []) := by simpa using h
  have cut := all.slice?
  have size := h.ahead.size
  rw [← h.pos, ← size] at cut
  have sliced : slice s.start s.bytes.size { s with pos := s.pos + 1 } =
      .ok (String.ofList (c :: cs)) { s with pos := s.pos + 1 } := by
    rw [begun]
    exact slice_eq_ok cut
  have first : (String.ofList (c :: cs)).front?.getD '\uFFFD' = c := by
    rw [String.front?_eq, String.toList_ofList]
    rfl
  have got (s : Scanner) : (get : Lexer Scanner) s = .ok s s := rfl
  refine map_error ((bind_ok (got _)).trans ((bind_ok sliced).trans ?_))
  rw [first]
  have moved : { s with pos := s.start + c.utf8Size } = s.past [c] :=
    Scanner.past_eq (by simp [encode_cons, begun]) (by simpa using line.symm)
  rw [← moved]
  rfl

end

/-! ## The first byte decides

The branches of a step, each with the class of bytes that leads there. -/

section
variable {c : Char}

/-- ASCII characters are equal if their bytes are. -/
theorem toUInt8_beq {a : Char} (hc : isAscii c = true) (ha : isAscii a = true) :
    (c.toUInt8 == a.toUInt8) = (c == a) := by
  rw [Bool.eq_iff_iff, beq_iff_eq, beq_iff_eq, toUInt8_inj hc ha]

/-- A lexeme that has no fixed spelling, or none at all. -/
theorem lexemeFrom_plain (hc : isAscii c = true)
    (h : Piece.isBlank c = true ∨ c = '"' ∨ c.isDigit = true ∨ Piece.isLetter c = true) :
    lexemeFrom c.toUInt8 =
      if Piece.isBlank c && c != '\n' then return none
      else if c == '\n' then do
        modify fun s => { s with line := s.line + 1 }
        return none
      else if c == '"' then some <$> string
      else if c.isDigit then some <$> number
      else if Piece.isLetter c then some <$> identifier
      else some <$> unexpected := by
  obtain ⟨single, either, notSlash⟩ := symbol_ascii hc h
  simp only [lexemeFrom, single, either, toUInt8_beq (a := '/') hc rfl,
    beq_eq_false_iff_ne.2 notSlash, Bool.false_eq_true, if_false, isBlankByte_ascii hc,
    toUInt8_beq (a := '\n') hc rfl, toUInt8_beq (a := '"') hc rfl, isDigitByte_ascii hc,
    isLetterByte_ascii hc]

/-- A symbol that no longer one begins with. -/
theorem lexemeFrom_single {sy : Symbol} (h : single? c.toUInt8 = some sy) :
    lexemeFrom c.toUInt8 = return some ⟨.symbol sy, ()⟩ := by
  simp only [lexemeFrom, h]

/-- A symbol that may go on with an equals sign. -/
theorem lexemeFrom_either (hc : isAscii c = true) {long short : Symbol}
    (h : either? c.toUInt8 = some (long, short)) : lexemeFrom c.toUInt8 = do
      return some ⟨.symbol (← either '='.toUInt8 long short), ()⟩ := by
  have single := single?_of_either?_ascii hc (.inl (by rw [h]; rfl))
  simp only [lexemeFrom, single, h]

/-- A slash, or what two of them begin. -/
theorem lexemeFrom_slash : lexemeFrom '/'.toUInt8 = do
    if (← look 0) == '/'.toUInt8 then
      comment
      return none
    else return some ⟨.symbol .slash, ()⟩ :=
  rfl

/-- A character that no lexeme begins with. -/
theorem lexemeFrom_stray (hc : isAscii c = true) (plain : Piece.isBlank c = false) (quote : c ≠ '"')
    (digit : c.isDigit = false) (letter : Piece.isLetter c = false)
    (none : Symbol.ofSpelling? [c] = none) : lexemeFrom c.toUInt8 = some <$> unexpected := by
  rw [ofSpelling?_ascii hc] at none
  simp only [Option.or_eq_none_iff, Option.map_eq_none_iff] at none
  obtain ⟨⟨single, either⟩, slash⟩ := none
  have notSlash : c ≠ '/' := fun h => by simp [h] at slash
  have feed : c ≠ '\n' := fun h => by simp [h, Piece.isBlank] at plain
  simp only [lexemeFrom, single, either, toUInt8_beq (a := '/') hc rfl,
    beq_eq_false_iff_ne.2 notSlash, Bool.false_eq_true, if_false, isBlankByte_ascii hc, plain,
    toUInt8_beq (a := '\n') hc rfl, beq_eq_false_iff_ne.2 feed, toUInt8_beq (a := '"') hc rfl,
    beq_eq_false_iff_ne.2 quote, isDigitByte_ascii hc, digit, isLetterByte_ascii hc, letter,
    Bool.false_and]

end

/-! ## A step takes a piece

All classes together. -/

section
variable {s : Scanner} {before : List Char} {c : Char} {cs : List Char}

/-- A symbol that no second character can make longer. -/
theorem firstSymbol_alone (none : ∀ d, Symbol.ofSpelling? [c, d] = none) {sy : Symbol}
    (alone : Symbol.ofSpelling? [c] = some sy) :
    (Piece.firstSymbol c cs).1 = .token (.symbol sy) [c] () := by
  have longer : (cs.head?.bind fun d => Symbol.ofSpelling? [c, d]) = .none := by
    simp [none]
  simp only [Piece.firstSymbol, longer, alone, Piece.spelling_of_ofSpelling? alone]

/-- A character that begins no symbol. -/
theorem firstSymbol_stray (none : ∀ ds, Symbol.ofSpelling? (c :: ds) = none) :
    (Piece.firstSymbol c cs).1 = .stray c := by
  have longer : (cs.head?.bind fun d => Symbol.ofSpelling? [c, d]) = .none := by
    simp [none]
  rw [Piece.firstSymbol, longer, none]

theorem ofSpelling?_pair (hc : isAscii c = true) (either : either? c.toUInt8 = none) (d : Char) :
    Symbol.ofSpelling? [c, d] = none := by
  by_cases hd : d = '='
  · rw [hd, ofSpelling?_equal_ascii hc, either]
    rfl
  · exact ofSpelling?_other c hd

variable (h : s.At before (c :: cs)) (begun : s.start = s.pos)
include h begun

omit begun in
/-- The step at a symbol that may go on with an equals sign. -/
theorem either_eq (hc : isAscii c = true) (feed : c ≠ '\n') {long short : Symbol}
    (pair : either? c.toUInt8 = some (long, short)) :
    lexemeFrom c.toUInt8 { s with pos := s.pos + 1 } = outcome s (Piece.firstSymbol c cs).1 := by
  have after : (s.past [c]).At (before ++ [c]) cs := h.past
  have alone := ofSpelling?_ascii hc
  rw [single?_of_either?_ascii hc (.inl (by rw [pair]; rfl)), pair] at alone
  have alone : Symbol.ofSpelling? [c] = some short := by simpa using alone
  have longer := ofSpelling?_equal_ascii hc
  rw [pair] at longer
  have looked : look 0 (s.past [c]) = .ok ((s.past [c]).look 0) (s.past [c]) := rfl
  have equal := after.look (.eq (a := '=') rfl) rfl
  have took : either '='.toUInt8 long short (s.past [c]) =
      if (cs.head?.map (· == '=')).getD false then .ok long (s.past [c, '=']) else
        .ok short (s.past [c]) := by
    refine (bind_ok looked).trans ?_
    rw [equal]
    have advanced : advance (s.past [c]) = .ok () (s.past [c, '=']) := by
      rw [show [c, '='] = [c] ++ ['='] from rfl, ← Scanner.past_past]
      exact congrArg (EStateM.Result.ok ()) (Scanner.bump_eq rfl (by decide))
    split
    · exact bind_ok advanced
    · rfl
  rw [lexemeFrom_either hc pair, Scanner.bump_eq hc feed]
  -- The two agree on whether an equals sign follows.
  rcases cs with _ | ⟨d, rest⟩
  · have piece : (Piece.firstSymbol c []).1 = .token (.symbol short) [c] () := by
      simp only [Piece.firstSymbol, List.head?_nil, Option.bind_none, alone,
        Piece.spelling_of_ofSpelling? alone]
    rw [piece]
    exact bind_ok took
  · by_cases hd : d = '='
    · subst hd
      have piece : (Piece.firstSymbol c ('=' :: rest)).1 = .token (.symbol long) [c, '='] () := by
        have longer : Symbol.ofSpelling? [c, '='] = some long := by simpa using longer
        simp only [Piece.firstSymbol, List.head?_cons, Option.bind_some, longer,
          Piece.spelling_of_ofSpelling? longer]
      rw [piece]
      exact bind_ok took
    · have piece : (Piece.firstSymbol c (d :: rest)).1 = .token (.symbol short) [c] () := by
        simp only [Piece.firstSymbol, List.head?_cons, Option.bind_some, ofSpelling?_other c hd,
          alone, Piece.spelling_of_ofSpelling? alone]
      rw [piece]
      have other : ((List.head? (d :: rest)).map (· == '=')).getD false = false := by
        simpa using hd
      rw [other] at took
      exact bind_ok took

/-- The step at a character that begins no piece with a class of its own. -/
theorem symbol_eq (hc : isAscii c = true) (blank : Piece.isBlank c = false) (quote : c ≠ '"')
    (digit : c.isDigit = false) (letter : Piece.isLetter c = false)
    (comment : ¬(c = '/' ∧ cs.head? = some '/')) :
    lexemeFrom c.toUInt8 { s with pos := s.pos + 1 } = outcome s (Piece.firstSymbol c cs).1 := by
  have feed : c ≠ '\n' := fun h => by simp [h, Piece.isBlank] at blank
  have alone := ofSpelling?_ascii hc
  cases either : either? c.toUInt8 with
  | some pair => exact either_eq h hc feed either
  | none =>
      have pairs := ofSpelling?_pair hc either
      rw [either] at alone
      cases single : single? c.toUInt8 with
      | some sy =>
          rw [single] at alone
          rw [firstSymbol_alone pairs (by simpa using alone), lexemeFrom_single single,
            Scanner.bump_eq hc feed]
          rfl
      | none =>
          rw [single] at alone
          by_cases slash : c = '/'
          · subst slash
            have after : (s.past ['/']).At (before ++ ['/']) cs := h.past
            have looked : look 0 (s.past ['/']) = .ok ((s.past ['/']).look 0) (s.past ['/']) := rfl
            have other : ((s.past ['/']).look 0 == '/'.toUInt8) = false := by
              rw [after.look (.eq (a := '/') rfl) rfl]
              cases cs <;> simp_all
            rw [firstSymbol_alone pairs (by simpa using alone), lexemeFrom_slash,
              Scanner.bump_eq hc feed]
            refine (bind_ok looked).trans ?_
            rw [other]
            rfl
          · have none : Symbol.ofSpelling? [c] = none := by simpa [slash] using alone
            have longer : (cs.head?.bind fun d => Symbol.ofSpelling? [c, d]) = .none := by
              simp [pairs]
            rw [lexemeFrom_stray hc blank quote digit letter none, unexpected_eq h begun feed,
              Piece.firstSymbol, longer, none]

/-- The step at a character of several bytes. -/
theorem wide_eq (hc : isAscii c = false) :
    scanToken s = outcome s (Piece.first c cs).1 := by
  obtain ⟨b, bs, same, first, -⟩ := encode_wide hc
  have looked : s.look 0 = b := by
    rw [h.ahead.look, encode_cons, same]
    rfl
  have other {a : Char} (ha : isAscii a = true) : c ≠ a := by
    rintro rfl
    rw [ha] at hc
    cases hc
  have blank : Piece.isBlank c = false := by
    simp [Piece.isBlank, other (a := ' ') rfl, other (a := '\t') rfl, other (a := '\r') rfl,
      other (a := '\n') rfl]
  have slash : (c == '/' && cs.head? == some '/') = false := by simp [other (a := '/') rfl]
  have quote : (c == '"') = false := by simp [other (a := '"') rfl]
  have digit : c.isDigit = false := Bool.eq_false_iff.2 fun h => by
    rw [isAscii_of_isDigit h] at hc
    cases hc
  have letter : Piece.isLetter c = false := Bool.eq_false_iff.2 fun h => by
    rw [isAscii_of_isLetter h] at hc
    cases hc
  obtain ⟨single, either, notSlash, notBlank, notFeed, notQuote, notDigit, notLetter⟩ :=
    tests_wide first
  have step : lexemeFrom b = some <$> unexpected := by
    simp [lexemeFrom, single, either, notSlash, notBlank, notFeed, notQuote, notDigit, notLetter]
  rw [scanToken_eq, looked, step, unexpected_eq h begun (other rfl)]
  simp only [Piece.first, blank, slash, quote, digit, letter, Bool.false_eq_true, if_false,
    firstSymbol_stray (ofSpelling?_wide hc)]

/-- **A step takes a piece.** -/
theorem scanToken_eq_outcome : scanToken s = outcome s (Piece.first c cs).1 := by
  cases hc : isAscii c with
  | false => exact wide_eq h begun hc
  | true =>
      have looked : s.look 0 = c.toUInt8 := by
        rw [h.ahead.look, encode_cons, encode_ascii hc]
        rfl
      rw [scanToken_eq, looked]
      unfold Piece.first
      split
      next blank =>
        rw [lexemeFrom_plain hc (.inl blank), blank]
        by_cases feed : c = '\n'
        · subst feed
          rfl
        · rw [Scanner.bump_eq hc feed, if_pos (by simpa using feed)]
          rfl
      next notBlank =>
        have plain : Piece.isBlank c = false := Bool.eq_false_iff.2 notBlank
        have feed : c ≠ '\n' := fun h => by simp [h, Piece.isBlank] at plain
        split
        next both =>
          obtain ⟨rfl, second⟩ : c = '/' ∧ cs.head? = some '/' := by simpa using both
          have after : (s.past ['/']).At (before ++ ['/']) cs := h.past
          have looked : look 0 (s.past ['/']) = .ok ((s.past ['/']).look 0) (s.past ['/']) := rfl
          have slash : ((s.past ['/']).look 0 == '/'.toUInt8) = true := by
            rw [after.look (.eq (a := '/') rfl) rfl, second]
            rfl
          rw [lexemeFrom_slash, Scanner.bump_eq hc feed]
          refine (bind_ok looked).trans ?_
          rw [slash, if_pos rfl]
          refine (bind_ok after.comment).trans ?_
          rw [Scanner.past_past]
          rfl
        next notBoth =>
          have comment : ¬(c = '/' ∧ cs.head? = some '/') := by simpa using notBoth
          split
          next isQuote =>
            have quote : c = '"' := by simpa using isQuote
            rw [lexemeFrom_plain hc (.inr (.inl quote)), plain, beq_eq_false_iff_ne.2 feed, isQuote,
              Scanner.bump_eq hc feed, ← string_eq h begun quote]
            rfl
          next notQuote =>
            have quote : c ≠ '"' := by simpa using notQuote
            split
            next digit =>
              rw [lexemeFrom_plain hc (.inr (.inr (.inl digit))), plain,
                beq_eq_false_iff_ne.2 feed, beq_eq_false_iff_ne.2 quote, digit,
                Scanner.bump_eq hc feed, ← number_eq h begun digit]
              rfl
            next notDigit =>
              have digit : c.isDigit = false := Bool.eq_false_iff.2 notDigit
              split
              next letter =>
                rw [lexemeFrom_plain hc (.inr (.inr (.inr letter))), plain,
                  beq_eq_false_iff_ne.2 feed, beq_eq_false_iff_ne.2 quote, digit, letter,
                  Scanner.bump_eq hc feed]
                exact identifier_eq h begun
              next notLetter =>
                exact symbol_eq h begun hc plain quote digit (Bool.eq_false_iff.2 notLetter)
                  comment

end

end Lox.Scan
