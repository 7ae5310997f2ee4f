import Lox.Proofs.Number.Nearest
import Lox.Proofs.Scan.Rescan
import Lox.Tree.Printed

/-!
# The texts of numbers

Every text that is written for a finite double without a sign is spelt as a number of the language:
digits, and after a point more digits.  What it denotes is the double itself, whether the text has
all digits of a whole number or the fewest that read back.  So the scan of such a text is the
number.

A text is made of digits in three ways: those of a whole number that fits into 64 bits, and the
fewest that read back, with a point among them or with zeros behind or before them.  For each it is
shown that the text is spelt as a number and which decimal it denotes; that this decimal is read as
the double is a matter of numbers alone, and is shown apart.

* `Spells.digits`, `Spells.pointed` — the texts of decimals, and what they denote.
* `spells_numberText`, `Literal.spells_numberText` — the texts of doubles in a listing and a tree.
* `number_texts_read_back` — **the text of a number is scanned as that number**.
-/

namespace Lox

open Number

/-! ## Decimals

What the lexical grammar says of a text with digits and of one with a point. -/

/-- The value of digits is their number in base ten. -/
theorem Scan.digitsValue_eq (ds : List Char) : Scan.digitsValue ds = Nat.ofDigitChars 10 ds 0 :=
  Nat.ofDigitChars_eq_foldl.symm

theorem isDigit_of_mem_toDigits {n : Nat} : ∀ c ∈ Nat.toDigits 10 n, c.isDigit = true :=
  fun _ => Nat.isDigit_of_mem_toDigits (by decide) (by decide)

/-- Digits alone are a number, and denote the decimal without places that they are. -/
theorem Spells.digits {ds : List Char} (ne : ds ≠ []) (digits : ∀ c ∈ ds, c.isDigit = true) :
    Spells .number ds (ofDecimal (Nat.ofDigitChars 10 ds 0) 0) := by
  obtain ⟨c, cs, rfl⟩ := List.exists_cons_of_ne_nil ne
  obtain ⟨digit, digits⟩ := List.forall_mem_cons.1 digits
  rw [← Scan.digitsValue_eq]
  exact .whole digit digits

/-- Digits with a point inside denote a fraction. -/
theorem Spells.pointed {ds ds' : List Char} (ne : ds ≠ []) (ne' : ds' ≠ [])
    (digits : ∀ c ∈ ds ++ ds', c.isDigit = true) :
    Spells .number (ds ++ '.' :: ds')
      (ofDecimal (Nat.ofDigitChars 10 (ds ++ ds') 0) ds'.length) := by
  obtain ⟨c, cs, rfl⟩ := List.exists_cons_of_ne_nil ne
  obtain ⟨d, ds', rfl⟩ := List.exists_cons_of_ne_nil ne'
  obtain ⟨left, right⟩ := List.forall_mem_append.1 digits
  obtain ⟨digit, digits⟩ := List.forall_mem_cons.1 left
  obtain ⟨digit', digits'⟩ := List.forall_mem_cons.1 right
  rw [← Scan.digitsValue_eq]
  exact .fraction digit digits digit' digits'

/-! ### Digits of whole numbers

Zeros behind digits multiply by ten, and zeros before them change nothing. -/

section
variable (n k : Nat)

/-- Zeros behind the digits of a number multiply it. -/
theorem ofDigitChars_zeros_behind :
    Nat.ofDigitChars 10 (Nat.toDigits 10 n ++ List.replicate k '0') 0 = n * 10 ^ k := by
  rw [Nat.ofDigitChars_append, Nat.ofDigitChars_ten_toDigits, Nat.ofDigitChars_replicate_zero,
    Nat.mul_comm]

/-- Zeros before the digits of a number change nothing. -/
theorem ofDigitChars_zeros_before :
    Nat.ofDigitChars 10 (List.replicate k '0' ++ Nat.toDigits 10 n) 0 = n := by
  rw [Nat.ofDigitChars_append, Nat.ofDigitChars_replicate_zero, Nat.mul_zero,
    Nat.ofDigitChars_ten_toDigits]

theorem isDigit_zeros : ∀ c ∈ List.replicate k '0', c.isDigit = true :=
  fun _ h => (List.eq_of_mem_replicate h).symm ▸ rfl

/-! ### Decimals -/

/-- A whole number with zeros behind it. -/
theorem spells_zeros :
    Spells .number (Nat.repr n ++ Decimal.zeros k).toList (ofDecimal (n * 10 ^ k) 0) := by
  have text : (Nat.repr n ++ Decimal.zeros k).toList =
      Nat.toDigits 10 n ++ List.replicate k '0' := by
    rw [String.toList_append, Decimal.zeros, Nat.repr, String.toList_ofList, String.toList_ofList]
  rw [text, ← ofDigitChars_zeros_behind]
  exact .digits (List.append_ne_nil_of_left_ne_nil Nat.toDigits_ne_nil _)
    (List.forall_mem_append.2 ⟨isDigit_of_mem_toDigits, isDigit_zeros k⟩)

/-- A whole number with the one place `.0`. -/
theorem spells_tenths : Spells .number (Nat.repr n ++ ".0").toList (ofDecimal (n * 10) 1) := by
  have text : (Nat.repr n ++ ".0").toList = Nat.toDigits 10 n ++ '.' :: ['0'] := by
    rw [String.toList_append, Nat.repr, String.toList_ofList]
    rfl
  have value : Nat.ofDigitChars 10 (Nat.toDigits 10 n ++ ['0']) 0 = n * 10 :=
    ofDigitChars_zeros_behind n 1
  rw [text, ← value]
  exact .pointed Nat.toDigits_ne_nil (List.cons_ne_nil _ _)
    (List.forall_mem_append.2 ⟨isDigit_of_mem_toDigits, isDigit_zeros 1⟩)

/-- A whole number with a point before its last digits. -/
theorem spells_pointed {places : Nat} (pos : 0 < places) :
    Spells .number (Decimal.pointed n places).toList (ofDecimal n places) := by
  simp only [Decimal.pointed, String.toList_ofList]
  have long : places < (List.replicate (places + 1 - (Nat.toDigits 10 n).length) '0' ++
      Nat.toDigits 10 n).length := by
    rw [List.length_append, List.length_replicate]
    omega
  have value := ofDigitChars_zeros_before n (places + 1 - (Nat.toDigits 10 n).length)
  have digits := List.forall_mem_append.2
    ⟨isDigit_zeros (places + 1 - (Nat.toDigits 10 n).length), isDigit_of_mem_toDigits (n := n)⟩
  generalize List.replicate (places + 1 - (Nat.toDigits 10 n).length) '0' ++
    Nat.toDigits 10 n = ds at long value digits ⊢
  have whole : ds.take (ds.length - places) ≠ [] := by
    rw [← List.length_pos_iff, List.length_take]
    omega
  have fraction : (ds.drop (ds.length - places)).length = places := by
    rw [List.length_drop]
    omega
  have spelt := Spells.pointed whole (List.length_pos_iff.1 (fraction.symm ▸ pos))
    (by rwa [List.take_append_drop])
  rwa [List.take_append_drop, value, fraction] at spelt

end

/-- The text of a decimal without an exponent. -/
theorem spells_positional (d : Decimal) : Spells .number d.positional.toList
    (ofDecimal (d.digits * 10 ^ d.exponent.toNat) (-d.exponent).toNat) := by
  obtain ⟨digits, exponent⟩ := d
  cases exponent with
  | ofNat n =>
      have places : (-Int.ofNat n).toNat = 0 := Int.toNat_neg_natCast n
      rw [places]
      exact spells_zeros digits n
  | negSucc n =>
      have whole : digits * 10 ^ (Int.negSucc n).toNat = digits := Nat.mul_one digits
      have places : (-Int.negSucc n).toNat = n + 1 := rfl
      rw [whole, places]
      exact spells_pointed digits (Nat.succ_pos n)

/-! ## Doubles

A finite double without a sign, in the form that is chosen for it. -/

section
variable {x : Float} {m e : Nat} (finite : decode x = .finite false m e)
include finite

/-- The shortest decimal of a double denotes it. -/
theorem spells_shortest : Spells .number (shortest x).toList x := by
  have text : shortest x = (fewestDigits .up (body x) m e).positional := by
    rw [shortest, textWith, finite]
    exact String.empty_append
  have spelt := spells_positional (fewestDigits .up (body x) m e)
  rwa [ofDecimal_eq finite (fewestDigits_reads finite .up), ← text] at spelt

/-- A whole number is as many units as it has ones. -/
theorem units_of_isWhole (whole : isWhole x = true) :
    m * 2 ^ e = unitsPerOne * wholePart x := by
  simp only [isWhole, finite, beq_iff_eq, Nat.pow_eq] at whole
  simp only [wholePart, finite, Nat.pow_eq]
  exact (Nat.mul_div_cancel' (Nat.dvd_of_mod_eq_zero whole)).symm

/-- A whole number is denoted by its digits with the one place `.0`. -/
theorem ofDecimal_tenths (whole : isWhole x = true) : ofDecimal (wholePart x * 10) 1 = x := by
  refine ofDecimal_eq finite ?_
  rw [← Nat.mul_assoc, ← units_of_isWhole finite whole]
  exact nearestBody_units finite (by decide)

/-- The exact text of a whole number denotes it. -/
theorem spells_fixed (whole : isWhole x = true) : Spells .number (fixed 1 x).toList x := by
  have rounded : roundDiv .toEven (m * 2 ^ e * 10 ^ 1) unitsPerOne = wholePart x * 10 := by
    rw [units_of_isWhole finite whole, Nat.mul_assoc, Nat.mul_comm]
    exact roundDiv_mul_self .toEven _ unitsPerOne_pos
  have text : fixed 1 x = Decimal.pointed (wholePart x * 10) 1 := by
    rw [fixed, textWith, finite]
    simp only [Nat.pow_eq, rounded]
    exact String.empty_append
  rw [text]
  have spelt := spells_pointed (wholePart x * 10) Nat.one_pos
  rwa [ofDecimal_tenths finite whole] at spelt

/-- The conversion to a 64-bit integer is exact below `2 ^ 63`. -/
theorem toInt_toInt64 (small : wholePart x < 2 ^ 63) : (toInt64 x).toInt = wholePart x := by
  simp only [wholePart, finite] at small
  simp only [toInt64, wholePart, finite, Bool.false_eq_true, if_false]
  generalize m * Nat.pow 2 e / unitsPerOne = whole at small ⊢
  have low : Int64.minValue.toInt = -2 ^ 63 := by decide
  have high : Int64.maxValue.toInt = 2 ^ 63 - 1 := by decide
  exact Int64.toInt_ofIntClamp (by omega) (by omega)

/-- The text of a number in a token listing denotes it. -/
theorem spells_numberText : Spells .number (Token.numberText x).toList x := by
  unfold Token.numberText
  split
  next whole =>
    obtain ⟨whole, small⟩ : isWhole x = true ∧ wholePart x < 2 ^ 63 := by simpa using whole
    have spelt := spells_tenths (wholePart x)
    rw [ofDecimal_tenths finite whole] at spelt
    rw [toInt_toInt64 finite small]
    exact spelt
  next => exact spells_shortest finite

/-- The text of a number in a printed tree denotes it. -/
theorem Literal.spells_numberText : Spells .number (Literal.numberText x).toList x := by
  unfold Literal.numberText
  split
  next whole => exact spells_fixed finite whole
  next => exact spells_shortest finite

end

/-! ## Scans

A text that is spelt as a number is scanned as that number, with the end behind it and no fault. -/

theorem Spells.number_noFeed {text : List Char} {x : Float} (h : Spells .number text x) :
    '\n' ∉ text := by
  have outside {cs : List Char} (digits : ∀ c ∈ cs, c.isDigit = true) : '\n' ∉ cs :=
    fun feed => absurd (digits _ feed) (by decide)
  cases h with
  | whole digit digits => exact outside (List.forall_mem_cons.2 ⟨digit, digits⟩)
  | fraction digit digits digit' digits' =>
      refine List.not_mem_append (outside (List.forall_mem_cons.2 ⟨digit, digits⟩)) ?_
      exact List.not_mem_cons_of_ne_of_not_mem (by decide)
        (outside (List.forall_mem_cons.2 ⟨digit', digits'⟩))

/-- The scan of a text that is spelt as a number. -/
theorem Spells.scan_number {text : String} {x : Float} (h : Spells .number text.toList x) :
    scan text = [.token ⟨.number, text, 1, x⟩, .token ⟨.eof, "", 1, ()⟩] := by
  have cut : Lox.pieces text.toList = [.token .number text.toList x] := by
    have first := h.pieces .ending
    rw [List.append_nil] at first
    exact first
  have line : 1 + text.toList.count '\n' = 1 := by
    rw [List.count_eq_zero.2 h.number_noFeed]
  rw [Scan.scan_eq, cut]
  simp only [Scan.items, Scan.Item.ofPiece?, Piece.text, line, String.ofList_toList]

/-- **The text of a number is scanned as that number.**  A finite double without a sign is read
back, bit for bit, from its text in a token listing and from its text in a printed tree, each of
which is one token.  Where the listing goes by way of a 64-bit integer, that integer is the double
exactly. -/
theorem number_texts_read_back {x : Float} {m e : Nat} (finite : decode x = .finite false m e)
    (lexeme : String) (line : Nat) :
    let listed := Token.literalText ⟨.number, lexeme, line, x⟩
    let printed := (Expr.literal (.number x)).text
    scan listed = [.token ⟨.number, listed, 1, x⟩, .token ⟨.eof, "", 1, ()⟩] ∧
      scan printed = [.token ⟨.number, printed, 1, x⟩, .token ⟨.eof, "", 1, ()⟩] ∧
      (isWhole x = true → wholePart x < 2 ^ 63 →
        listed = Int.repr (toInt64 x).toInt ++ ".0" ∧
          (toInt64 x).toInt * unitsPerOne = (m * 2 ^ e : Nat)) := by
  intro listed printed
  refine ⟨(spells_numberText finite).scan_number, (Literal.spells_numberText finite).scan_number,
    fun whole small => ⟨?_, ?_⟩⟩
  · show Token.numberText x = _
    rw [Token.numberText, if_pos (by simpa using ⟨whole, small⟩)]
  · rw [toInt_toInt64 finite small, units_of_isWhole finite whole, Nat.mul_comm, Nat.cast_mul]

/-- The largest double below the bound of the integers. -/
theorem number_texts_read_back_below_bound :
    let x := Float.ofBits 0x43DFFFFFFFFFFFFF
    decode x = .finite false (2 ^ 53 - 1) (1074 + 10) ∧
      Token.literalText ⟨.number, "", 1, x⟩ = "9223372036854774784.0" ∧
      scan "9223372036854774784.0" =
        [.token ⟨.number, "9223372036854774784.0", 1, x⟩, .token ⟨.eof, "", 1, ()⟩] ∧
      isWhole x = true ∧ wholePart x < 2 ^ 63 ∧
      (toInt64 x).toInt * unitsPerOne = ((2 ^ 53 - 1) * 2 ^ (1074 + 10) : Nat) := by
  intro x
  have finite : decode x = .finite false (2 ^ 53 - 1) (1074 + 10) := by decide +kernel
  have listed : Token.literalText ⟨.number, "", 1, x⟩ = "9223372036854774784.0" := by
    decide +kernel
  have whole : isWhole x = true := by decide +kernel
  have small : wholePart x < 2 ^ 63 := by decide +kernel
  obtain ⟨scanned, -, exact⟩ := number_texts_read_back finite "" 1
  exact ⟨finite, listed, listed ▸ scanned, whole, small, (exact whole small).2⟩

end Lox
