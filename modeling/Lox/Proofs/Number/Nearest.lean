import Mathlib
import Lox.Number.Decimal

/-!
# Reading decimals

A decimal is read as the double nearest to it, which depends on its value only, not on how it is
written down; and a decimal that is exactly a double is read as that double.

A double is described by the number that its bits are, without the sign: its body.  Bodies are in
the order of the magnitudes, so the double nearest to a quotient is found in whole numbers, by a
division that is rounded.  Nothing here computes with doubles; they are only taken apart and put
together.

* `nearestBody_mul` — the nearest double to a quotient that is not in lowest terms.
* `decode_finite`, `nearestBody_units` — the body of a finite double, and that its value reads back.
* `ofDecimal_eq`, `decode_ofDecimal` — the double with a given body, and that a decimal is no `NaN`.
* `Decimal.Reads`, `fewestDigits_reads` — the fewest digits of a double read back.
-/

namespace Lox.Number

/-! ## Quotients

A quotient is rounded in the same way whether it is in lowest terms or not. -/

variable {n d k : Nat}

/-- A factor of both terms makes no difference to a division that is rounded. -/
theorem roundDiv_mul (tie : Tie) (hk : 0 < k) :
    roundDiv tie (n * k) (d * k) = roundDiv tie n d := by
  have below : 2 * (n % d * k) < d * k ↔ 2 * (n % d) < d := by
    rw [← Nat.mul_assoc]
    exact Nat.mul_lt_mul_right hk
  have above : d * k < 2 * (n % d * k) ↔ d < 2 * (n % d) := by
    rw [← Nat.mul_assoc]
    exact Nat.mul_lt_mul_right hk
  simp only [roundDiv, Nat.mul_div_mul_right n d hk, Nat.mul_mod_mul_right, below, above]

/-- A quotient is rounded to one of its neighbours. -/
theorem roundDiv_neighbour (tie : Tie) (n d : Nat) :
    roundDiv tie n d = n / d ∨ roundDiv tie n d = n / d + 1 := by
  have tied : tie.choose (n / d) = n / d ∨ tie.choose (n / d) = n / d + 1 := by
    cases tie with
    | toEven => simp only [Tie.choose]; omega
    | up => exact .inr rfl
  simp only [roundDiv]
  split
  · exact .inl rfl
  · split
    · exact .inr rfl
    · exact tied

/-- The nearest double to a quotient depends on its value only. -/
theorem nearestBody_mul (hk : 0 < k) : nearestBody (n * k) (d * k) = nearestBody n d := by
  simp only [nearestBody, Nat.mul_div_mul_right n d hk, Nat.mul_right_comm d k,
    roundDiv_mul .toEven hk]

/-! ## Finite doubles

A finite double and its body determine each other, and its magnitude has that body. -/

theorem unitsPerOne_pos : 0 < unitsPerOne := by
  unfold unitsPerOne
  generalize 1074 = n
  exact Nat.two_pow_pos n

section
variable {x : Float} {negative : Bool} {m e : Nat}

/-- The parts of a finite double, and its body. -/
theorem decode_finite (h : decode x = .finite negative m e) :
    negative = isNegative x ∧ m < 2 ^ 53 ∧ (e ≠ 0 → 2 ^ 52 ≤ m) ∧ body x = 2 ^ 52 * e + m ∧
      body x < infinityBody := by
  have range : body x < 2 ^ 63 := Nat.mod_lt _ (by decide)
  unfold decode at h
  simp only [Nat.pow_eq] at h
  split at h
  · split at h <;> cases h
  next notLast =>
    have finite : body x < infinityBody := by
      show body x < 2047 * 2 ^ 52
      omega
    split at h
    next =>
      cases h
      exact ⟨rfl, by omega, by omega, by omega, finite⟩
    next =>
      cases h
      exact ⟨rfl, by omega, by omega, by omega, finite⟩

/-- The value of a finite double reads back. -/
theorem nearestBody_units (h : decode x = .finite negative m e) (hd : 0 < d) :
    nearestBody (m * 2 ^ e * d) d = body x := by
  obtain ⟨-, high, low, same, finite⟩ := decode_finite h
  have binade : Nat.log2 (m * 2 ^ e) - 52 = e := by
    rcases Nat.eq_zero_or_pos e with rfl | pos
    · rw [Nat.pow_zero, Nat.mul_one]
      rcases Nat.eq_zero_or_pos m with rfl | hm
      · rfl
      · have := (Nat.log2_lt (Nat.ne_of_gt hm)).2 high
        omega
    · have low := low (Nat.ne_of_gt pos)
      have exact : Nat.log2 (m * 2 ^ e) = 52 + e := by
        refine (Nat.log2_eq_iff ?_).2 ⟨?_, ?_⟩
        · exact Nat.mul_ne_zero (by omega) (Nat.two_pow_pos e).ne'
        · rw [Nat.pow_add]
          exact Nat.mul_le_mul_right _ low
        · rw [Nat.add_right_comm, Nat.pow_add]
          exact Nat.mul_lt_mul_of_pos_right high (Nat.two_pow_pos e)
      rw [exact, Nat.add_sub_cancel_left]
  have whole : roundDiv .toEven (m * 2 ^ e * d) (d * 2 ^ e) = m := by
    rw [Nat.mul_assoc, Nat.mul_comm (2 ^ e)]
    exact roundDiv_mul_self .toEven m (Nat.mul_pos hd (Nat.two_pow_pos e))
  simp only [nearestBody, Nat.pow_eq, Nat.mul_div_cancel _ hd, binade, whole, ← same]
  exact Nat.min_eq_left finite.le

/-- A decimal that is nearest to a double without a sign is read as that double. -/
theorem ofDecimal_eq (h : decode x = .finite false m e) {digits places : Nat}
    (nearest : nearestBody (unitsPerOne * digits) (10 ^ places) = body x) :
    ofDecimal digits places = x := by
  have unsigned : x.toBits.toNat < 2 ^ 63 := by
    have := (decode_finite h).1
    simpa [isNegative] using this
  have bits : UInt64.ofNat (body x) = x.toBits := by
    rw [body, Nat.pow_eq, Nat.mod_eq_of_lt unsigned]
    exact UInt64.ofNat_toNat
  rw [ofDecimal, Nat.pow_eq, nearest, bits, Float.ofBits_toBits]

end

section
open Float.Model.UnpackedFloat

/-- The bits of a magnitude stay as they are, the infinity included. -/
theorem toBits_ofBits {b : Nat} (h : b ≤ infinityBody) :
    (Float.ofBits (UInt64.ofNat b)).toBits = UInt64.ofNat b := by
  have number : @isNaNBits .binary64 (UInt64.ofNat b).toBitVec = false := by
    have small : b % 2 ^ 64 = b := Nat.mod_eq_of_lt (Nat.lt_of_le_of_lt h (by decide))
    have bound : b ≤ 2047 * 2 ^ 52 := h
    have bits : (UInt64.ofNat b).toBitVec.toNat = b := small
    refine decide_eq_false fun ⟨exponent, mantissa⟩ => mantissa ?_
    have exponent := congrArg BitVec.toNat exponent
    rw [unpackExponent_def, BitVec.extractLsb'_toNat, bits] at exponent
    refine BitVec.eq_of_toNat_eq ?_
    rw [unpackMantissa_def, BitVec.extractLsb'_toNat, bits]
    have last : b / 2 ^ 52 % 2 ^ 11 = 2047 := by
      rw [Nat.shiftRight_eq_div_pow] at exponent
      exact exponent
    show b % 2 ^ 52 = 0
    omega
  refine UInt64.toBitVec_inj.1 ?_
  have kept := @pack_unpack .binary64 (UInt64.ofNat b).toBitVec (by decide)
  rwa [if_neg (by rw [number]; exact Bool.false_ne_true)] at kept

end

/-- The bits of a decimal that is read are those of the body nearest to it. -/
theorem bits_ofDecimal (digits places : Nat) : (ofDecimal digits places).toBits.toNat =
    nearestBody (unitsPerOne * digits) (10 ^ places) := by
  have bound : nearestBody (unitsPerOne * digits) (Nat.pow 10 places) ≤ infinityBody :=
    Nat.min_le_right _ _
  rw [ofDecimal, toBits_ofBits bound]
  exact Nat.mod_eq_of_lt (Nat.lt_of_le_of_lt bound (by decide))

/-- What a decimal is read as has no sign: its bits are those of its magnitude. -/
theorem body_ofDecimal (digits places : Nat) :
    body (ofDecimal digits places) = nearestBody (unitsPerOne * digits) (10 ^ places) := by
  have bound : nearestBody (unitsPerOne * digits) (10 ^ places) ≤ infinityBody :=
    Nat.min_le_right _ _
  rw [body, bits_ofDecimal]
  exact Nat.mod_eq_of_lt (Nat.lt_of_le_of_lt bound (by decide))

/-- What a decimal is read as has no sign; it is infinite or a finite magnitude. -/
theorem decode_ofDecimal (digits places : Nat) :
    decode (ofDecimal digits places) = .infinite false ∨
      ∃ m e, decode (ofDecimal digits places) = .finite false m e := by
  have bound : nearestBody (unitsPerOne * digits) (10 ^ places) ≤ 2047 * 2 ^ 52 :=
    Nat.min_le_right _ _
  have unsigned : isNegative (ofDecimal digits places) = false := by
    rw [isNegative, bits_ofDecimal, Nat.pow_eq]
    exact decide_eq_false (by omega)
  rw [decode, body_ofDecimal, unsigned]
  simp only [Nat.pow_eq]
  split
  next last =>
    rw [if_pos (by omega)]
    exact .inl rfl
  next =>
    split
    · exact .inr ⟨_, _, rfl⟩
    · exact .inr ⟨_, _, rfl⟩

/-! ## Decimals

A decimal reads back if the double nearest to it is the one it is meant for.  That is tried for
fewer and fewer digits, and whatever the search ends with has passed the test. -/

theorem readsBack_iff {target digits places : Nat} : readsBack target digits places = true ↔
    nearestBody (unitsPerOne * digits) (10 ^ places) = target := by
  unfold readsBack
  exact beq_iff_eq

/-- A decimal is read as the double with the given body. -/
def Decimal.Reads (d : Decimal) (target : Nat) : Prop :=
  nearestBody (unitsPerOne * (d.digits * 10 ^ d.exponent.toNat)) (10 ^ (-d.exponent).toNat) = target

namespace Decimal

variable {target places j c : Nat}

/-- How many zeros a decimal is written with does not matter. -/
theorem nearestBody_zeros : nearestBody (unitsPerOne * (c * 10 ^ j)) (10 ^ places) =
    nearestBody (unitsPerOne * (c * 10 ^ ((j : Int) - places).toNat))
      (10 ^ (-((j : Int) - places)).toNat) := by
  have left : j = ((j : Int) - places).toNat + min j places := by omega
  have right : places = (-((j : Int) - places)).toNat + min j places := by omega
  have hk : 0 < 10 ^ min j places := Nat.pow_pos (by decide)
  generalize unitsPerOne = units
  rw [← nearestBody_mul (n := units * (c * 10 ^ ((j : Int) - places).toNat)) hk, ← Nat.pow_add,
    ← right, Nat.mul_assoc units, Nat.mul_assoc c, ← Nat.pow_add, ← left]

/-- Zeros that are dropped make no difference to that. -/
theorem reads_iff :
    (mk c (j - places)).Reads target ↔ readsBack target (c * 10 ^ j) places = true := by
  rw [readsBack_iff, nearestBody_zeros]
  exact Iff.rfl

theorem reads_ofGrid (h : readsBack target (c * 10 ^ j) places = true) :
    (ofGrid c (j - places)).Reads target := by
  unfold ofGrid
  split
  next carried =>
    have exponent : (j : Int) - places + 1 = (j + 1 : Nat) - places := by omega
    rw [exponent, reads_iff, Nat.pow_succ', ← Nat.mul_assoc,
      Nat.div_mul_cancel (Nat.dvd_of_mod_eq_zero carried)]
    exact h
  next => exact reads_iff.2 h

end Decimal

section
variable {tie : Tie} {target exact places j c : Nat}

/-- What is found with a number of digits reads back. -/
theorem onGrid?_reads (h : onGrid? tie target exact places j = some c) :
    readsBack target (c * 10 ^ j) places = true := by
  simp only [onGrid?, Nat.pow_eq] at h
  split at h
  next low high =>
    obtain rfl := Option.some.inj h
    rcases roundDiv_neighbour tie exact (10 ^ j) with same | same
    · rw [same, low]
    · rw [same, high]
  next low _ => rw [← Option.some.inj h, low]
  next _ high => rw [← Option.some.inj h, high]
  next => cases h

/-- So does what the search for the fewest digits ends with, if the decimal it begins with does. -/
theorem coarsest_reads (h : readsBack target exact places = true) (j : Nat) :
    (coarsest tie target exact places j).Reads target := by
  induction j with
  | zero =>
      have exponent : (-(places : Int)) = (0 : Nat) - places := by omega
      rw [coarsest, exponent, Decimal.reads_iff, Nat.pow_zero, Nat.mul_one]
      exact h
  | succ j ih =>
      rw [coarsest]
      split
      next c found => exact Decimal.reads_ofGrid (onGrid?_reads found)
      next => exact ih

end

section
variable {x : Float} {negative : Bool} {m e : Nat} (h : decode x = .finite negative m e)
include h

/-- The exact expansion of a double reads back. -/
theorem exactDecimal_reads :
    readsBack (body x) (exactDecimal m e).1 (exactDecimal m e).2 = true := by
  rw [readsBack_iff]
  unfold exactDecimal unitsPerOne
  -- No step is to compute the power.
  generalize 1074 = n
  split
  next large =>
    have units : 2 ^ n * (m * 2 ^ (e - n)) = m * 2 ^ e * 10 ^ 0 := by
      rw [Nat.mul_left_comm, ← Nat.pow_add, Nat.add_sub_cancel' large, Nat.pow_zero, Nat.mul_one]
    simp only [Nat.pow_eq, units]
    exact nearestBody_units h (Nat.pow_pos (by decide))
  next small =>
    have split : 2 ^ n = 2 ^ e * 2 ^ (n - e) := by
      rw [← Nat.pow_add, Nat.add_sub_cancel' (Nat.le_of_not_le small)]
    have ten : 10 ^ (n - e) = 2 ^ (n - e) * 5 ^ (n - e) := Nat.mul_pow 2 5 (n - e)
    have units : 2 ^ n * (m * 5 ^ (n - e)) = m * 2 ^ e * 10 ^ (n - e) := by
      rw [split, ten]
      ring
    simp only [Nat.pow_eq, units]
    exact nearestBody_units h (Nat.pow_pos (by decide))

/-- **The fewest digits of a double read back.** -/
theorem fewestDigits_reads (tie : Tie) : (fewestDigits tie (body x) m e).Reads (body x) := by
  unfold fewestDigits
  split
  next zero =>
    subst zero
    have reads := nearestBody_units h Nat.one_pos
    rw [Nat.zero_mul, Nat.zero_mul] at reads
    rw [Decimal.Reads, Nat.zero_mul, Nat.mul_zero]
    exact reads
  next => exact coarsest_reads (exactDecimal_reads h) _

end

end Lox.Number
