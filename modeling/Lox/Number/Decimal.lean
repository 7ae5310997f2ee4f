import Lox.Number.Double

/-!
# Decimal texts of doubles

Two roundings to a decimal are needed.  *Fixed places* rounds the exact value to a given number of
places.  *Fewest digits* takes the shortest decimal that reads back as the same double: every
double has a finite exact expansion, so cutting that expansion after one digit, two digits and so
on, and trying the two neighbours of the value on each such grid, must come to an end.

* `Decimal` — a whole number times a power of ten, with its `positional` and `scientific` texts.
* `exactDecimal` — the exact expansion of a finite magnitude.
* `fewestDigits` — the nearest of the shortest decimals that read back.
* `fixed`, `shortest` — the texts of a double under the two roundings.
-/

namespace Lox.Number

/-- The number `digits * 10 ^ exponent`. -/
structure Decimal where
  digits : Nat
  exponent : Int
  deriving DecidableEq, Repr

namespace Decimal

/-- A run of zeros. -/
def zeros (n : Nat) : String :=
  String.ofList (List.replicate n '0')

/-- The digits of a whole number with a point before the last `places` of them; there is always a
digit before the point. -/
def pointed (digits places : Nat) : String :=
  let ds := Nat.toDigits 10 digits
  let padded := List.replicate (places + 1 - ds.length) '0' ++ ds
  let whole := padded.length - places
  String.ofList (padded.take whole ++ '.' :: padded.drop whole)

/-- The text without an exponent; a whole number has no point. -/
def positional (d : Decimal) : String :=
  match d.exponent with
  | .ofNat n => Nat.repr d.digits ++ zeros n
  | .negSucc n => pointed d.digits (n + 1)

/-- The exponent of the leading digit. -/
def leadingExponent (d : Decimal) : Int :=
  d.exponent + ((Nat.toDigits 10 d.digits).length - 1 : Nat)

/-- The text with one digit before the point and a signed exponent; a single digit has no
point. -/
def scientific (d : Decimal) : String :=
  let mantissa := match Nat.toDigits 10 d.digits with
    | c :: c' :: rest => String.ofList (c :: '.' :: c' :: rest)
    | ds => String.ofList ds
  let e := d.leadingExponent
  mantissa ++ (if 0 ≤ e then "e+" else "e-") ++ Nat.repr e.natAbs

end Decimal

/-! ## Fewest digits -/

/-- The exact expansion of `m * 2 ^ e` units: digits and places after the point. -/
def exactDecimal (m e : Nat) : Nat × Nat :=
  if 1074 ≤ e then (m * Nat.pow 2 (e - 1074), 0) else (m * Nat.pow 5 (1074 - e), 1074 - e)

/-- Whether `digits / 10 ^ places` reads back as the double with body `target`. -/
@[irreducible]
def readsBack (target digits places : Nat) : Bool :=
  nearestBody (unitsPerOne * digits) (Nat.pow 10 places) == target

/-- Of the two multiples of `10 ^ j` around `exact / 10 ^ places`, the one that reads back; of two
the nearer one, counted in `10 ^ j`. -/
def onGrid? (tie : Tie) (target exact places j : Nat) : Option Nat :=
  let step := Nat.pow 10 j
  let low := exact / step
  match readsBack target (low * step) places, readsBack target ((low + 1) * step) places with
  | true, true => some (roundDiv tie exact step)
  | true, false => some low
  | false, true => some (low + 1)
  | false, false => none

/-- `c * 10 ^ e`, where a neighbour that carried to the next power of ten sheds its zero. -/
def Decimal.ofGrid (c : Nat) (e : Int) : Decimal :=
  if c % 10 = 0 then ⟨c / 10, e + 1⟩ else ⟨c, e⟩

/-- The coarsest of the grids `10 ^ j`, `10 ^ (j - 1)`, …, `1` with a decimal that reads back; the
last one holds the exact expansion itself. -/
def coarsest (tie : Tie) (target exact places : Nat) : Nat → Decimal
  | 0 => ⟨exact, -places⟩
  | j + 1 =>
    match onGrid? tie target exact places (j + 1) with
    | some c => .ofGrid c (j + 1 - places)
    | none => coarsest tie target exact places j

/-- **The shortest decimal that reads back** as the magnitude of `m * 2 ^ e` units, whose body is
`target`; of several the one nearest to the value. -/
def fewestDigits (tie : Tie) (target m e : Nat) : Decimal :=
  if m = 0 then ⟨0, 0⟩
  else
    let (exact, places) := exactDecimal m e
    coarsest tie target exact places ((Nat.toDigits 10 exact).length - 1)

/-! ## Texts -/

/-- The sign in front of a magnitude. -/
def sign (negative : Bool) : String :=
  if negative then "-" else ""

/-- The text of a double, given that of a finite magnitude. -/
def textWith (finite : Nat → Nat → String) (x : Float) : String :=
  match decode x with
  | .nan => "NaN"
  | .infinite negative => sign negative ++ "inf"
  | .finite negative m e => sign negative ++ finite m e

/-- The exact value rounded to `places` places, at least one; a tie goes to the even neighbour. -/
def fixed (places : Nat) : Float → String :=
  textWith fun m e =>
    Decimal.pointed (roundDiv .toEven (m * Nat.pow 2 e * Nat.pow 10 places) unitsPerOne) places

/-- The shortest decimal that reads back, never with an exponent; a whole number has no point, and
of two equally near decimals the larger is written. -/
def shortest (x : Float) : String :=
  textWith (fun m e => (fewestDigits .up (body x) m e).positional) x

end Lox.Number
