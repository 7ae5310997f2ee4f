/-!
# Rounding a quotient of natural numbers

Every number text of the language is decided by exact arithmetic on natural numbers: a double is a
whole number of units, a decimal is a whole number over a power of ten, and what is left to choose
is the whole number nearest to a quotient.

* `Tie` — where a quotient goes that lies exactly between two whole numbers.
* `roundDiv` — the whole number nearest to `n / d`.
-/

namespace Lox.Number

/-- Where a quotient goes that lies exactly between two whole numbers. -/
inductive Tie where
  /-- To the even one of the two. -/
  | toEven
  /-- To the larger one. -/
  | up
  deriving DecidableEq, Repr

/-- The neighbour a tie goes to, `q` being the lower one. -/
def Tie.choose (q : Nat) : Tie → Nat
  | .toEven => q + q % 2
  | .up => q + 1

/-- The whole number nearest to `n / d`. -/
def roundDiv (tie : Tie) (n d : Nat) : Nat :=
  let q := n / d
  let r := n % d
  if 2 * r < d then q else if d < 2 * r then q + 1 else tie.choose q

/-- A whole quotient is its own rounding. -/
theorem roundDiv_mul_self (tie : Tie) (q : Nat) {d : Nat} (hd : 0 < d) :
    roundDiv tie (q * d) d = q := by
  simp [roundDiv, Nat.mul_div_cancel q hd, hd]

end Lox.Number
