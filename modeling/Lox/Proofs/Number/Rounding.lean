import Lox.Proofs.Number.Nearest

/-!
# Correct rounding

Bodies count the magnitudes of doubles in increasing order, and where the exponent is `s` one body
more is `2 ^ s` units more.  A quotient lies between the magnitudes of two bodies that follow each
other, so the nearer of these two is the nearest of all.

* `units` — the magnitude with a body, the infinities as the power of two that follows.
* `units_binade`, `units_strictMono` — magnitudes of one exponent, and that bodies are in order.
* `nearestBody_between` — a quotient is rounded to the nearer of its two neighbours.
* `nearestBody_nearest` — **no body is nearer to a quotient than the one it is rounded to**.
* `ofDecimal_nearest` — **no double is nearer to a decimal than the one it is read as**.
-/

namespace Lox.Number

/-! ## Magnitudes

In units of the smallest double that is not zero, all magnitudes are whole numbers. -/

/-- The magnitude with a body, in units; the infinities count as the first power of two that no
double has. -/
def units (b : Nat) : Nat :=
  if b < 2 ^ 52 then b else (2 ^ 52 + b % 2 ^ 52) * 2 ^ (b / 2 ^ 52 - 1)

/-- The magnitudes of one exponent, the first one of the next exponent included. -/
theorem units_binade {s m : Nat} (high : m ≤ 2 ^ 53) (low : s ≠ 0 → 2 ^ 52 ≤ m) :
    units (2 ^ 52 * s + m) = m * 2 ^ s := by
  unfold units
  split
  next below =>
    obtain rfl : s = 0 := by omega
    omega
  next normal =>
    rcases Nat.lt_or_ge m (2 ^ 53) with inside | next
    · have fraction : (2 ^ 52 * s + m) % 2 ^ 52 = m - 2 ^ 52 := by omega
      have exponent : (2 ^ 52 * s + m) / 2 ^ 52 - 1 = s := by omega
      rw [fraction, exponent, Nat.add_sub_cancel' (by omega)]
    · have fraction : (2 ^ 52 * s + m) % 2 ^ 52 = 0 := by omega
      have exponent : (2 ^ 52 * s + m) / 2 ^ 52 - 1 = s + 1 := by omega
      obtain rfl : m = 2 ^ 52 * 2 := by omega
      rw [fraction, exponent, Nat.add_zero, Nat.mul_assoc, Nat.pow_succ' (n := s)]

/-- Every body is one of some exponent. -/
theorem exists_binade (b : Nat) :
    ∃ s m, b = 2 ^ 52 * s + m ∧ m < 2 ^ 53 ∧ (s ≠ 0 → 2 ^ 52 ≤ m) :=
  ⟨b / 2 ^ 52 - 1, b - 2 ^ 52 * (b / 2 ^ 52 - 1), by omega, by omega, by omega⟩

/-- Bodies are in the order of their magnitudes. -/
theorem units_strictMono : StrictMono units := by
  refine strictMono_nat_of_lt_succ fun b => ?_
  obtain ⟨s, m, rfl, high, low⟩ := exists_binade b
  have next : units (2 ^ 52 * s + m + 1) = (m + 1) * 2 ^ s :=
    units_binade high fun hs => Nat.le_succ_of_le (low hs)
  rw [next, units_binade (Nat.le_of_lt high) low]
  exact Nat.mul_lt_mul_of_pos_right (Nat.lt_succ_self m) (Nat.two_pow_pos s)

/-- The magnitude of a finite double. -/
theorem units_body {x : Float} {negative : Bool} {m e : Nat}
    (h : decode x = .finite negative m e) : units (body x) = m * 2 ^ e := by
  obtain ⟨-, high, low, same, -⟩ := decode_finite h
  rw [same]
  exact units_binade (Nat.le_of_lt high) low

/-! ## Quotients

The rounded quotient is at one of the two magnitudes that the quotient lies between, and all others
are farther away than these. -/

/-- A quotient is rounded to the nearer of its two neighbours, and to the even one of them if it is
between both. -/
theorem roundDiv_near (n d : Nat) :
    (roundDiv .toEven n d = n / d ∧ 2 * (n % d) ≤ d ∧
        (2 * (n % d) = d → roundDiv .toEven n d % 2 = 0)) ∨
      (roundDiv .toEven n d = n / d + 1 ∧ d ≤ 2 * (n % d) ∧
        (2 * (n % d) = d → roundDiv .toEven n d % 2 = 0)) := by
  simp only [roundDiv, Tie.choose]
  split
  · exact .inl ⟨rfl, by omega, by omega⟩
  · split
    · exact .inr ⟨rfl, by omega, by omega⟩
    · omega

/-- The exponent at which a number of units is rounded, and how many steps of it there are. -/
theorem log2_binade (q : Nat) :
    q / 2 ^ (Nat.log2 q - 52) < 2 ^ 53 ∧
      (Nat.log2 q - 52 ≠ 0 → 2 ^ 52 ≤ q / 2 ^ (Nat.log2 q - 52)) := by
  constructor
  · rw [Nat.div_lt_iff_lt_mul (Nat.two_pow_pos _), ← Nat.pow_add]
    exact Nat.lt_of_lt_of_le Nat.lt_log2_self (Nat.pow_le_pow_right (by decide) (by omega))
  · intro large
    have exponent : 52 + (Nat.log2 q - 52) = Nat.log2 q := by omega
    have positive : q ≠ 0 := by
      rintro rfl
      exact large rfl
    rw [Nat.le_div_iff_mul_le (Nat.two_pow_pos _), ← Nat.pow_add, exponent]
    exact Nat.log2_self_le positive

section
variable {d : Nat}

/-- A quotient lies between the magnitudes of two bodies that follow each other, and is rounded to
the nearer of these, unless that is beyond the infinity. -/
theorem nearestBody_between (n : Nat) (hd : 0 < d) :
    ∃ b, units b * d ≤ n ∧ n < units (b + 1) * d ∧
      ((nearestBody n d = min b infinityBody ∧ 2 * n ≤ units b * d + units (b + 1) * d ∧
          (2 * n = units b * d + units (b + 1) * d → b % 2 = 0)) ∨
        (nearestBody n d = min (b + 1) infinityBody ∧
          units b * d + units (b + 1) * d ≤ 2 * n ∧
          (2 * n = units b * d + units (b + 1) * d → (b + 1) % 2 = 0))) := by
  obtain ⟨high, low⟩ := log2_binade (n / d)
  rw [Nat.div_div_eq_div_mul] at high low
  have near := roundDiv_near n (d * 2 ^ (Nat.log2 (n / d) - 52))
  simp only [nearestBody, Nat.pow_eq]
  generalize Nat.log2 (n / d) - 52 = s at high low near ⊢
  have split := Nat.div_add_mod n (d * 2 ^ s)
  have rest := Nat.mod_lt n (Nat.mul_pos hd (Nat.two_pow_pos s))
  generalize roundDiv .toEven n (d * 2 ^ s) = rounded at near ⊢
  generalize n / (d * 2 ^ s) = f at high low near split
  have here : units (2 ^ 52 * s + f) * d = d * 2 ^ s * f := by
    rw [units_binade (Nat.le_of_lt high) low]
    ring
  have next : units (2 ^ 52 * s + f + 1) * d = d * 2 ^ s * f + d * 2 ^ s := by
    have low' : s ≠ 0 → 2 ^ 52 ≤ f + 1 := fun large => Nat.le_succ_of_le (low large)
    have high' : f + 1 ≤ 2 ^ 53 := high
    rw [Nat.add_assoc, units_binade high' low']
    ring
  refine ⟨2 ^ 52 * s + f, ?_⟩
  rw [here, next]
  refine ⟨by omega, by omega, near.imp ?_ ?_⟩
  · rintro ⟨rfl, near, tie⟩
    exact ⟨rfl, by omega, fun half => by have := tie (by omega); omega⟩
  · rintro ⟨rfl, near, tie⟩
    exact ⟨rfl, by omega, fun half => by have := tie (by omega); omega⟩

/-- **No body is nearer to a quotient than the one it is rounded to**, and another that is as near
leaves the even one. -/
theorem nearestBody_nearest (n : Nat) (hd : 0 < d) {b : Nat} (hb : b ≤ infinityBody) :
    Nat.dist n (units (nearestBody n d) * d) ≤ Nat.dist n (units b * d) ∧
      (Nat.dist n (units (nearestBody n d) * d) = Nat.dist n (units b * d) →
        b = nearestBody n d ∨ nearestBody n d % 2 = 0) := by
  have strict {a c : Nat} (h : a < c) : units a * d < units c * d :=
    Nat.mul_lt_mul_of_pos_right (units_strictMono h) hd
  have mono {a c : Nat} (h : a ≤ c) : units a * d ≤ units c * d :=
    Nat.mul_le_mul_right d (units_strictMono.monotone h)
  obtain ⟨below, lower, upper, near⟩ := nearestBody_between n hd
  unfold Nat.dist
  rcases Nat.lt_or_ge below infinityBody with finite | beyond
  · have finite' : below + 1 ≤ infinityBody := finite
    rw [Nat.min_eq_left finite.le, Nat.min_eq_left finite'] at near
    have side : b = below ∨ b = below + 1 ∨ units b * d < units below * d ∨
        units (below + 1) * d < units b * d := by
      rcases Nat.lt_trichotomy b below with left | same | right
      · exact .inr (.inr (.inl (strict left)))
      · exact .inl same
      · rcases Nat.eq_or_lt_of_le (show below + 1 ≤ b from right) with same | further
        · exact .inr (.inl same.symm)
        · exact .inr (.inr (.inr (strict further)))
    rcases near with ⟨result, near, tie⟩ | ⟨result, near, tie⟩ <;> rw [result] <;>
      rcases side with rfl | rfl | left | right <;> omega
  · -- the quotient is beyond every body there is
    have result : nearestBody n d = infinityBody := by
      rw [Nat.min_eq_right beyond, Nat.min_eq_right (Nat.le_succ_of_le beyond)] at near
      exact near.elim And.left And.left
    have last := mono beyond
    rw [result]
    rcases Nat.eq_or_lt_of_le hb with same | inside
    · rw [same]
      exact ⟨Nat.le_refl _, fun _ => .inl rfl⟩
    · have apart := strict inside
      omega

end

/-! ## Decimals

A decimal is such a quotient: its digits, divided by a power of ten. -/

/-- **No double is nearer to a decimal than the one it is read as**, the infinity standing for the
power of two that follows the finite doubles. -/
theorem ofDecimal_nearest {x : Float} {negative : Bool} {m e : Nat}
    (h : decode x = .finite negative m e) (digits places : Nat) :
    Nat.dist (unitsPerOne * digits) (units (body (ofDecimal digits places)) * 10 ^ places) ≤
      Nat.dist (unitsPerOne * digits) (m * 2 ^ e * 10 ^ places) := by
  obtain ⟨-, -, -, -, finite⟩ := decode_finite h
  rw [body_ofDecimal, ← units_body h]
  exact (nearestBody_nearest _ (Nat.pow_pos (by decide)) finite.le).1

end Lox.Number
