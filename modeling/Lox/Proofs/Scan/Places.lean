import Lox.Proofs.Scan.Encoding
import Lox.Proofs.Scan.Pieces
import Lox.Proofs.State

/-!
# Scanners between characters

A scanner that stands between two characters of its source has the bytes of the rest of the text
before it.  Every step over a whole class of bytes leaves it between characters again, behind the
text that the class of characters takes, and a text that is cut out between two such places is
there.

The scanner moves over bytes, and the division of a text is one of characters.  All that makes these
differ is put into this module.  A character is one byte if it is ASCII, and then the tests on bytes
and on characters agree; otherwise it is bytes that pass none of the tests, so a loop stops at it or
takes all of it.  That a scanner never stands within a character is then an invariant, and it is why
no slice of the source is ever refused.

* `Scanner.Ahead` — the bytes before a scanner, and what its loops do with them.
* `Scanner.At` — a scanner that stands between the two parts of its source.
* `Scanner.past` — a scanner behind some text.
* `At.slice?`, `At.skip`, `At.untilQuote`, `At.comment` — steps between characters.
-/

namespace Lox.Scan

namespace Scanner

/-! ## The bytes ahead

What the loops of a scanner do, in terms of the list of bytes before it. -/

/-- The bytes that are still to be taken. -/
structure Ahead (s : Scanner) (bs : List UInt8) : Prop where
  bytes : s.bytes.toList.drop s.pos = bs
  bound : s.pos ≤ s.bytes.size

namespace Ahead

variable {s : Scanner} {b : UInt8} {bs : List UInt8}

/-- The source ends where the bytes ahead end. -/
theorem size (h : s.Ahead bs) : s.bytes.size = s.pos + bs.length := by
  have := h.bound
  rw [← h.bytes, List.length_drop, Array.length_toList]
  omega

/-- A look ahead is a look into the list; behind its end there are zeros. -/
theorem look (h : s.Ahead bs) (offset : Nat) : s.look offset = bs[offset]?.getD 0 := by
  rw [Scanner.look, ← h.bytes, List.getElem?_drop, Array.getElem?_toList]

/-- A scanner is at the end if no byte is ahead. -/
theorem atEnd (h : s.Ahead bs) : s.atEnd = bs.isEmpty := by
  rw [Scanner.atEnd, h.size]
  cases bs <;> simp

theorem tail (h : s.Ahead (b :: bs)) (line : Nat) :
    Ahead { s with pos := s.pos + 1, line := line } bs := by
  have := h.size
  refine ⟨?_, ?_⟩
  · show s.bytes.toList.drop (s.pos + 1) = bs
    rw [← List.drop_drop, h.bytes]
    rfl
  · show s.pos + 1 ≤ s.bytes.size
    simp only [List.length_cons] at this
    omega

/-- A loop over a class of bytes takes as many as are in it. -/
theorem skip (k : ByteClass) (h : s.Ahead bs) :
    s.skip k = { s with pos := s.pos + (bs.takeWhile k.has).length } := by
  induction bs generalizing s with
  | nil =>
      rw [Scanner.skip, h.look]
      simp [k.nul]
  | cons b bs ih =>
      rw [Scanner.skip, h.look]
      simp only [List.getElem?_cons_zero, Option.getD_some]
      by_cases hk : k.has b = true
      · rw [if_pos hk, ih (h.tail s.line)]
        simp [hk, Nat.add_assoc, Nat.add_comm 1]
      · simp [hk]

/-- The loop over a string takes all bytes up to a quote, and counts line feeds. -/
theorem untilQuote (h : s.Ahead bs) :
    s.untilQuote =
      { s with
        pos := s.pos + (bs.takeWhile (· != '"'.toUInt8)).length
        line := s.line + (bs.takeWhile (· != '"'.toUInt8)).count '\n'.toUInt8 } := by
  induction bs generalizing s with
  | nil =>
      rw [Scanner.untilQuote, h.atEnd]
      simp
  | cons b bs ih =>
      rw [Scanner.untilQuote, h.atEnd, h.look]
      simp only [List.isEmpty_cons, Bool.false_eq_true, if_false, List.getElem?_cons_zero,
        Option.getD_some]
      by_cases hq : b = '"'.toUInt8
      · simp [hq]
      · have inside : (b != '"'.toUInt8) = true := bne_iff_ne.2 hq
        rw [if_neg hq, List.takeWhile_cons, inside, if_pos rfl]
        by_cases hn : b = '\n'.toUInt8
        · rw [if_pos hn, ih (h.tail _)]
          simp [hn]
          omega
        · rw [if_neg hn, ih (h.tail _)]
          simp [hn]
          omega

/-- A search finds the first of the bytes, or the end. -/
theorem memchr? (h : s.Ahead bs) (b : UInt8) :
    (match s.memchr? b with
      | some offset => s.pos + offset
      | none => s.bytes.size) = s.pos + (bs.takeWhile (· != b)).length := by
  have found : s.memchr? b = bs.findIdx? (· == b) := by
    have toList (xs : Array UInt8) : xs.findIdx? (· == b) = xs.toList.findIdx? (· == b) := by
      cases xs
      simp
    rw [Scanner.memchr?, toList, Array.toList_extract, List.extract_eq_take_drop, ← h.bytes,
      List.take_of_length_le]
    exact Nat.le_of_eq (by rw [List.length_drop, Array.length_toList])
  rw [found, h.size, List.takeWhile_eq_take_findIdx_not, List.length_take]
  have same : (fun a => !(a != b)) = (· == b) := by
    funext a
    simp [bne]
  rw [same, Nat.min_eq_left List.findIdx_le_length]
  cases hf : bs.findIdx? (· == b) with
  | some i => rw [(List.findIdx?_eq_some_iff_findIdx_eq.1 hf).2]
  | none => rw [List.findIdx?_eq_none_iff_findIdx_eq.1 hf]

end Ahead

/-! ## Between characters

A scanner between characters has a part of the source behind it and a part before it. -/

/-- The scanner stands between the two parts of its source. -/
structure At (s : Scanner) (before rest : List Char) : Prop where
  text : s.source.toList = before ++ rest
  pos : s.pos = (encode before).length

/-- The scanner behind some text. -/
def past (s : Scanner) (text : List Char) : Scanner :=
  { s with pos := s.pos + (encode text).length, line := s.line + text.count '\n' }

namespace At

variable {s : Scanner} {before mid rest : List Char}

/-- The bytes ahead are those of the part before it. -/
theorem ahead (h : s.At before rest) : s.Ahead (encode rest) := by
  have bytes : s.bytes.toList = encode before ++ encode rest := by
    rw [s.encoded, toList_bytes, h.text, encode_append]
  refine ⟨?_, ?_⟩
  · rw [bytes, h.pos, List.drop_left]
  · rw [← Array.length_toList, bytes, h.pos, List.length_append]
    exact Nat.le_add_right _ _

/-- Behind some of it the scanner stands between characters again. -/
theorem past (h : s.At before (mid ++ rest)) : (s.past mid).At (before ++ mid) rest := by
  refine ⟨?_, ?_⟩
  · show s.source.toList = before ++ mid ++ rest
    rw [h.text, List.append_assoc]
  · show s.pos + (encode mid).length = (encode (before ++ mid)).length
    rw [h.pos, encode_append, List.length_append]

/-- Between characters is a boundary. -/
theorem isBoundary (h : s.At before rest) :
    Scanner.isBoundary s.bytes (encode before).length = true := by
  have ahead := h.ahead
  have byte := ahead.bytes
  rw [h.pos] at byte
  have found : s.bytes[(encode before).length]? = (encode rest)[0]? := by
    rw [← byte, List.getElem?_drop, Nat.add_zero, Array.getElem?_toList]
  rw [Scanner.isBoundary, found]
  cases rest with
  | nil =>
      have size := ahead.size
      rw [h.pos] at size
      simp [size]
  | cons c rest =>
      obtain ⟨b, bs, same, first⟩ := first_byte c
      simp [encode_cons, same, first]

/-- What is cut out between characters is the text between them. -/
theorem slice? (h : s.At before (mid ++ rest)) :
    Scanner.slice? s.bytes (encode before).length
      ((encode before).length + (encode mid).length) = some (String.ofList mid) := by
  have last : Scanner.isBoundary s.bytes (encode (before ++ mid)).length = true :=
    h.past.isBoundary
  rw [encode_append, List.length_append] at last
  have cut : s.bytes.extract (encode before).length
      ((encode before).length + (encode mid).length) = mid.utf8Encode.data := by
    have bytes := h.ahead.bytes
    rw [h.pos] at bytes
    apply Array.ext'
    rw [Array.toList_extract, List.extract_eq_take_drop, bytes, Nat.add_sub_cancel_left,
      encode_append, List.take_left]
    simp [List.utf8Encode, encode]
  have valid : ByteArray.IsValidUTF8 ⟨mid.utf8Encode.data⟩ := ByteArray.isValidUTF8_utf8Encode
  rw [Scanner.slice?, if_pos ⟨Nat.le_add_right _ _, h.isBoundary, last⟩, cut, String.fromUTF8?,
    dif_pos valid]
  rfl

end At

end Scanner

/-! ## Classes of bytes and classes of characters

The tests of the scanner on bytes, and those of a division on characters, agree on ASCII.  There are
128 cases of each, which are checked one by one. -/

/-- A property of all characters of ASCII is one of finitely many. -/
theorem forall_ascii (P : Char → Prop) (h : ∀ n : Fin 128, P (Char.ofNat n)) {c : Char}
    (hc : isAscii c = true) : P c := by
  have small : c.toNat < 128 := of_decide_eq_true hc
  have := h ⟨c.toNat, small⟩
  rwa [show Char.ofNat c.toNat = c from Char.ofNat_toNat c] at this

section
variable {c : Char} (hc : isAscii c = true)
include hc

theorem isDigitByte_ascii : isDigitByte c.toUInt8 = c.isDigit :=
  forall_ascii (fun c => isDigitByte c.toUInt8 = c.isDigit) (by decide) hc

theorem isLetterByte_ascii : isLetterByte c.toUInt8 = Piece.isLetter c :=
  forall_ascii (fun c => isLetterByte c.toUInt8 = Piece.isLetter c) (by decide) hc

/-- Blanks; a line feed is one that is counted. -/
theorem isBlankByte_ascii : isBlankByte c.toUInt8 = (Piece.isBlank c && c != '\n') :=
  forall_ascii (fun c => isBlankByte c.toUInt8 = (Piece.isBlank c && c != '\n')) (by decide) hc

/-- What begins a lexeme without a fixed spelling begins no symbol. -/
theorem symbol_ascii
    (h : Piece.isBlank c = true ∨ c = '"' ∨ c.isDigit = true ∨ Piece.isLetter c = true) :
    single? c.toUInt8 = none ∧ either? c.toUInt8 = none ∧ c ≠ '/' := by
  revert h
  exact forall_ascii (fun c => Piece.isBlank c = true ∨ c = '"' ∨ c.isDigit = true ∨
    Piece.isLetter c = true → single? c.toUInt8 = none ∧ either? c.toUInt8 = none ∧ c ≠ '/')
    (by decide) hc

/-- One character is a symbol if one of the two tables of the scanner has it, or if it is a
slash. -/
theorem ofSpelling?_ascii : Symbol.ofSpelling? [c] =
    ((single? c.toUInt8).or ((either? c.toUInt8).map Prod.snd)).or
      (if c = '/' then some .slash else none) :=
  forall_ascii (fun c => Symbol.ofSpelling? [c] =
    ((single? c.toUInt8).or ((either? c.toUInt8).map Prod.snd)).or
      (if c = '/' then some .slash else none)) (by decide) hc

/-- One character and an equals sign are a symbol if the table of pairs says so. -/
theorem ofSpelling?_equal_ascii :
    Symbol.ofSpelling? [c, '='] = (either? c.toUInt8).map Prod.fst :=
  forall_ascii (fun c => Symbol.ofSpelling? [c, '='] = (either? c.toUInt8).map Prod.fst)
    (by decide) hc

theorem single?_of_either?_ascii : (either? c.toUInt8).isSome = true ∨ c = '/' →
    single? c.toUInt8 = none :=
  forall_ascii (fun c => (either? c.toUInt8).isSome = true ∨ c = '/' → single? c.toUInt8 = none)
    (by decide) hc

end

/-- Symbols of two characters end in an equals sign. -/
theorem ofSpelling?_other (c : Char) {d : Char} (h : d ≠ '=') :
    Symbol.ofSpelling? [c, d] = none := by
  refine List.find?_eq_none.2 fun s _ same => ?_
  have second : ∀ s ∈ Symbol.all, s.spelling[1]?.getD '=' = '=' := by decide
  have := second s (Symbol.mem_all s)
  rw [beq_iff_eq.1 same] at this
  exact h this

/-- No symbol has a character that is not ASCII. -/
theorem ofSpelling?_wide {c : Char} (h : isAscii c = false) (ds : List Char) :
    Symbol.ofSpelling? (c :: ds) = none := by
  refine List.find?_eq_none.2 fun s _ same => ?_
  have first : ∀ s ∈ Symbol.all, (s.spelling.head?.map isAscii).getD true = true := by decide
  have := first s (Symbol.mem_all s)
  rw [beq_iff_eq.1 same] at this
  simp [h] at this

/-- No class of bytes has a byte that begins a character of several bytes. -/
theorem tests_wide {b : UInt8} (h : 192 ≤ b.toNat) :
    single? b = none ∧ either? b = none ∧ b ≠ '/'.toUInt8 ∧ isBlankByte b = false ∧
      b ≠ '\n'.toUInt8 ∧ b ≠ '"'.toUInt8 ∧ isDigitByte b = false ∧ isLetterByte b = false := by
  have all : ∀ n : Fin 64, let b := UInt8.ofNat (192 + n)
      single? b = none ∧ either? b = none ∧ b ≠ '/'.toUInt8 ∧ isBlankByte b = false ∧
        b ≠ '\n'.toUInt8 ∧ b ≠ '"'.toUInt8 ∧ isDigitByte b = false ∧ isLetterByte b = false := by
    decide
  have bound := b.toNat_lt
  have := all ⟨b.toNat - 192, by omega⟩
  rwa [show 192 + (b.toNat - 192) = b.toNat by omega, UInt8.ofNat_toNat] at this

/-! ## Steps over text

What each loop comes to between characters. -/

/-- A slice that exists is cut out. -/
theorem slice_eq_ok {s : Scanner} {first last : Nat} {text : String}
    (h : Scanner.slice? s.bytes first last = some text) : slice first last s = .ok text s := by
  simp only [slice, h]

namespace Scanner

/-- Behind one text and then another. -/
theorem past_past (s : Scanner) (xs ys : List Char) : (s.past xs).past ys = s.past (xs ++ ys) := by
  simp only [past, encode_append, List.length_append, List.count_append, Nat.add_assoc]

variable {s : Scanner} {before rest : List Char}

/-- The scanner behind text without a line feed. -/
theorem past_eq {text : List Char} {p : Nat} (hp : p = s.pos + (encode text).length)
    (line : '\n' ∉ text) : { s with pos := p } = s.past text := by
  simp only [past, List.count_eq_zero.2 line, hp, Nat.add_zero]

/-- One ASCII character that is no line feed. -/
theorem bump_eq {c : Char} (hc : isAscii c = true) (other : c ≠ '\n') :
    { s with pos := s.pos + 1 } = s.past [c] :=
  past_eq (by simp [encode_cons, encode_ascii hc]) (by simpa using other.symm)

namespace At

/-- A test on the next byte is one on the next character. -/
theorem look (h : s.At before rest) {p : Char → Bool} {q : UInt8 → Bool} (reads : Reads p q)
    (nul : q 0 = false) : q (s.look 0) = (rest.head?.map p).getD false := by
  rw [h.ahead.look, reads.head_encode nul]

/-- A loop over a class takes the characters that are in it. -/
theorem skip (h : s.At before rest) {k : ByteClass} {p : Char → Bool} (reads : Reads p k.has)
    (line : p '\n' = false) : s.skip k = s.past (rest.takeWhile p) := by
  rw [h.ahead.skip]
  refine past_eq (by rw [reads.takeWhile_encode]) fun hmem => ?_
  have := List.all_eq_true.1 (List.all_takeWhile (p := p)) _ hmem
  rw [line] at this
  cases this

/-- The loop over a string takes all characters up to a quote. -/
theorem untilQuote (h : s.At before rest) :
    s.untilQuote = s.past (rest.takeWhile Piece.inString) := by
  have reads : Reads Piece.inString (· != '"'.toUInt8) := Reads.ne rfl
  rw [h.ahead.untilQuote, reads.takeWhile_encode, count_encode rfl]
  rfl

/-- A comment takes all characters up to the end of the line. -/
theorem comment (h : s.At before rest) :
    comment s = .ok () (s.past (rest.takeWhile Piece.inLine)) := by
  have reads : Reads Piece.inLine (· != '\n'.toUInt8) := Reads.ne rfl
  have moved := h.ahead.memchr? '\n'.toUInt8
  rw [reads.takeWhile_encode] at moved
  rw [Scan.comment, if_pos h.ahead.bound]
  refine congrArg (EStateM.Result.ok ()) (past_eq moved fun hmem => ?_)
  have := List.all_eq_true.1 (List.all_takeWhile (p := Piece.inLine)) _ hmem
  cases this

/-- The text of a lexeme that began here. -/
theorem lexeme {text : List Char} (h : s.At before (text ++ rest)) (begun : s.start = s.pos) :
    lexeme (s.past text) = .ok (String.ofList text) (s.past text) := by
  have cut := h.slice?
  rw [← h.pos] at cut
  refine slice_eq_ok ?_
  show Scanner.slice? s.bytes s.start (s.pos + (encode text).length) = _
  rw [begun, cut]

end At

end Scanner

end Lox.Scan
