/-!
# The grid of doubles

The bit pattern of a non-negative double, read as a natural number, is the place of that double
in increasing order. We call it the `ordinal`: zero has ordinal `0`, the smallest positive double
ordinal `1`, and infinity comes right after the largest finite double. Every finite double is a
whole multiple of `2 ^ (-1074)`, so its value is a natural number of such units, `units`. With
these two views comparing and rounding are exact arithmetic on natural numbers.

`floor` is the ordinal of the largest double below an amount of units, and `nearest` rounds a
quotient of natural numbers to the nearest double, a tie to the even ordinal.
-/

set_option autoImplicit false
set_option relaxedAutoImplicit false

namespace Lox.Binary64

/-- The number of doubles from one power of two to the next. -/
def perBinade : Nat := Nat.pow 2 52

/-- The ordinal of infinity. -/
def infinity : Nat := 2047 * perBinade

/-- The value of the double with a given ordinal, in units of `2 ^ (-1074)`. At the ordinal of
infinity it is the value that the next double would have, `2 ^ 1024`. -/
def units (ordinal : Nat) : Nat :=
  if ordinal < perBinade then ordinal
  else (perBinade + ordinal % perBinade) * Nat.pow 2 (ordinal / perBinade - 1)

/-- The ordinal of the largest double of at most `amount` units, on the grid continued beyond
infinity. An amount of at most 53 binary digits is a double; of a longer one the low digits are
dropped. -/
def floor (amount : Nat) : Nat :=
  let dropped := amount.log2 - 52
  dropped * perBinade + amount / Nat.pow 2 dropped

/-- The ordinal of the double nearest to `numerator / denominator`. A tie goes to the even ordinal,
and whatever lies closer to `2 ^ 1024` than to the largest finite double becomes infinity. -/
def nearest (numerator denominator : Nat) : Nat :=
  let scaled := numerator * Nat.pow 2 1074
  let below := floor (scaled / denominator)
  let middle := (units below + units (below + 1)) * denominator
  let ordinal :=
    if 2 * scaled < middle then below
    else if middle < 2 * scaled then below + 1
    else below + below % 2
  min ordinal infinity

/-- The double with a given ordinal. -/
def toFloat (ordinal : Nat) : Float := Float.ofBits (UInt64.ofNat ordinal)

/-- The sign bit of a double. -/
def isNegative (value : Float) : Bool := Nat.pow 2 63 ≤ value.toBits.toNat

/-- The ordinal of the absolute value of a double. -/
def ordinal (value : Float) : Nat := value.toBits.toNat % Nat.pow 2 63

end Lox.Binary64
