import Lox.Number.Binary64

/-!
# The shortest decimal of a double

A decimal reads back as a double when it lies in the interval of reals that round to that double:
between the midpoints to its two neighbours, the midpoints included exactly when the ordinal is
even. `shortest` finds, for a positive finite double, the decimal with the fewest digits in that
interval and, among those, the one nearest to the double. It tries the grids `10 ^ exponent` from
the coarsest that can hold a digit of the double downwards; if a grid has a point in the interval
at all, then one of the two neighbours of the double on that grid lies in it.
-/

set_option autoImplicit false
set_option relaxedAutoImplicit false

namespace Lox

/-- The number `digits * 10 ^ exponent`. -/
structure Decimal where
  digits : Nat
  exponent : Int
deriving DecidableEq, Repr

namespace Decimal

/-- The numerator of `digits * 10 ^ exponent` as a quotient of natural numbers. -/
def numerator (decimal : Decimal) : Nat := decimal.digits * Nat.pow 10 decimal.exponent.toNat

/-- The denominator of `digits * 10 ^ exponent` as a quotient of natural numbers. -/
def denominator (decimal : Decimal) : Nat := Nat.pow 10 (-decimal.exponent).toNat

/-- Whether the decimal lies in the interval that rounds to the double with this ordinal. The
midpoints to the neighbours are compared in units of `2 ^ (-1075)`. -/
def readsAs (decimal : Decimal) (ordinal : Nat) : Bool :=
  let amount := decimal.numerator * Nat.pow 2 1075
  let low := (Binary64.units (ordinal - 1) + Binary64.units ordinal) * decimal.denominator
  let high := (Binary64.units ordinal + Binary64.units (ordinal + 1)) * decimal.denominator
  if ordinal % 2 = 0 then low ≤ amount && amount ≤ high else low < amount && amount < high

/-- The largest decimal on the grid `10 ^ exponent` that is at most the double. -/
def below (ordinal : Nat) (exponent : Int) : Decimal :=
  ⟨Binary64.units ordinal * Nat.pow 10 (-exponent).toNat
    / (Nat.pow 2 1074 * Nat.pow 10 exponent.toNat), exponent⟩

/-- The point that follows on the same grid. -/
def next (decimal : Decimal) : Decimal := ⟨decimal.digits + 1, decimal.exponent⟩

/-- Whether the double lies nearer to the decimal than to the next point of its grid. In the
middle between the two it does not. -/
def isNearerThanNext (decimal : Decimal) (ordinal : Nat) : Bool :=
  2 * Binary64.units ordinal * decimal.denominator
    < (decimal.numerator + decimal.next.numerator) * Nat.pow 2 1074

/-- The point of the grid `10 ^ exponent` that reads as the double, the nearer one if there are
two, and of two equally near the larger. -/
def onGrid? (ordinal : Nat) (exponent : Int) : Option Decimal :=
  let lower := below ordinal exponent
  match lower.readsAs ordinal, lower.next.readsAs ordinal with
  | true, true => some (if lower.isNearerThanNext ordinal then lower else lower.next)
  | true, false => some lower
  | false, true => some lower.next
  | false, false => none

/-- The double itself: a unit `2 ^ (-1074)` is `5 ^ 1074` on the grid `10 ^ (-1074)`. -/
def exact (ordinal : Nat) : Decimal := ⟨Binary64.units ordinal * Nat.pow 5 1074, -1074⟩

/-- The first hit among the grids `10 ^ exponent`, `10 ^ (exponent - 1)` and so on, and the double
itself if so many `tries` find none. -/
def firstHit (ordinal : Nat) : Nat → Int → Decimal
  | 0, _ => exact ordinal
  | tries + 1, exponent =>
    match onGrid? ordinal exponent with
    | some decimal => decimal
    | none => firstHit ordinal tries (exponent - 1)

/-- An exponent whose power of ten exceeds the double. With `binary` the place of the leading binary
digit, a factor of two is worth between 0.3 and 0.31 decimal digits. -/
def coarsest (ordinal : Nat) : Int :=
  let binary : Int := (Binary64.units ordinal).log2 + 1 - 1074
  if 0 ≤ binary then binary * 31 / 100 + 1 else binary * 3 / 10 + 1

/-- The shortest decimal that reads as the positive finite double with this ordinal. Seventeen
digits always suffice, and the coarsest grid is at most a dozen above the leading digit. -/
def shortest (ordinal : Nat) : Decimal :=
  firstHit ordinal 40 (coarsest ordinal)

end Decimal

end Lox
