import Lox.Number.Rounding

/-!
# Doubles in exact arithmetic

A finite double is, up to its sign, a whole number of *units* of `2 ^ -1074`, so all magnitudes
share one scale and no signed exponent is needed.  Below the sign bit, the bits of a double — its
*body* — count the magnitudes in increasing order, zero first and infinity after the last finite
one, which makes rounding a real number to the nearest double a rounding of one quotient.

* `decode` — the sign and magnitude of a double, or what else it is.
* `nearestBody` — the body of the double nearest to a quotient, ties to even.
* `ofDecimal` — the double nearest to a decimal fraction.
* `wholePart`, `toInt64` — the part of a double before the point.
-/

namespace Lox.Number

/-- One, counted in units of `2 ^ -1074`. -/
def unitsPerOne : Nat := Nat.pow 2 1074

/-- The body of the infinities: the first that no finite magnitude has. -/
def infinityBody : Nat := 2047 * Nat.pow 2 52

/-- What a double stands for. -/
inductive Decoded where
  | nan
  | infinite (negative : Bool)
  /-- A magnitude of `significand * 2 ^ exponent` units. -/
  | finite (negative : Bool) (significand exponent : Nat)
  deriving DecidableEq, Repr

/-- The bits below the sign bit. -/
def body (x : Float) : Nat :=
  x.toBits.toNat % Nat.pow 2 63

/-- Whether the sign bit is set. -/
def isNegative (x : Float) : Bool :=
  decide (Nat.pow 2 63 ≤ x.toBits.toNat)

/-- The sign and magnitude of a double.  A body with exponent field `e` and fraction field `f` is
`f` units when `e` is zero and `(2 ^ 52 + f) * 2 ^ (e - 1)` units otherwise. -/
def decode (x : Float) : Decoded :=
  let e := body x / Nat.pow 2 52
  let f := body x % Nat.pow 2 52
  if e = 2047 then
    if f = 0 then .infinite (isNegative x) else .nan
  else if e = 0 then .finite (isNegative x) f 0
  else .finite (isNegative x) (Nat.pow 2 52 + f) (e - 1)

/-- The body of the double nearest to `n / d` units.  Doubles of at least `2 ^ (52 + s)` and less
than `2 ^ (53 + s)` units are the multiples of `2 ^ s` units; a quotient that rounds up to the
next power of two lands on the body that follows, and one past the last finite double on
infinity. -/
def nearestBody (n d : Nat) : Nat :=
  let s := Nat.log2 (n / d) - 52
  min (Nat.pow 2 52 * s + roundDiv .toEven n (d * Nat.pow 2 s)) infinityBody

/-- The double nearest to `digits / 10 ^ places`. -/
def ofDecimal (digits places : Nat) : Float :=
  Float.ofBits (UInt64.ofNat (nearestBody (unitsPerOne * digits) (Nat.pow 10 places)))

/-- Whether a double is a whole number; the infinities and `NaN` are not. -/
def isWhole (x : Float) : Bool :=
  match decode x with
  | .finite _ m e => m * Nat.pow 2 e % unitsPerOne == 0
  | _ => false

/-- The whole part of the magnitude of a finite double, in ones; zero for the others. -/
def wholePart (x : Float) : Nat :=
  match decode x with
  | .finite _ m e => m * Nat.pow 2 e / unitsPerOne
  | _ => 0

/-- The conversion to a 64-bit integer: towards zero, and to the nearer bound if the number is out
of range; `NaN` becomes zero. -/
def toInt64 (x : Float) : Int64 :=
  match decode x with
  | .nan => 0
  | .infinite negative => if negative then Int64.minValue else Int64.maxValue
  | .finite negative m e =>
    let whole : Int := (m * Nat.pow 2 e / unitsPerOne : Nat)
    Int64.ofIntClamp (if negative then -whole else whole)

end Lox.Number
