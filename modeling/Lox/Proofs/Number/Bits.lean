import Lox.Number.Binary64
import Mathlib

/-!
# Doubles and their bits

A finite double is its sign and the ordinal of its absolute value: `Binary64.toFloat` takes the
ordinal back to the absolute value, and negation sets the sign (`Binary64.toFloat_ordinal`).

The bits of a double are those of its sign, its exponent and its fraction. Its ordinal is made of
the last two (`Binary64.ordinal_eq`), and negation changes the first
(`Binary64.neg_unpack_packComponents`).
-/

set_option autoImplicit false
set_option relaxedAutoImplicit false

namespace Lox.Binary64

open Float.Model
open Float.Model.UnpackedFloat (Sign packComponents isNaNBits pack_unpack
  packComponents_unpackSign_unpackExponent_unpackMantissa)

theorem toNat_packComponents (sign : Sign) (exponent : BitVec 11) (fraction : BitVec 52) :
    (packComponents .binary64 sign exponent fraction).toNat
      = sign.toBitVec.toNat * 2 ^ 63 + exponent.toNat * 2 ^ 52 + fraction.toNat := by
  change (sign.toBitVec ++ exponent ++ fraction).toNat = _
  rw [BitVec.toNat_append, BitVec.toNat_append, ← Nat.shiftLeft_add_eq_or_of_lt fraction.isLt,
    ← Nat.shiftLeft_add_eq_or_of_lt exponent.isLt, Nat.shiftLeft_eq, Nat.shiftLeft_eq]
  omega

/-- Negation changes the sign and nothing else. -/
theorem neg_unpack_packComponents {format : Format} (sign : Sign)
    (exponent : BitVec format.exponentBits)
    (fraction : BitVec format.mantissaBitsWithoutImplicit) :
    (UnpackedFloat.unpack format (packComponents format sign exponent fraction)).neg
      = .unpack format (packComponents format (-sign) exponent fraction) := by
  simp only [UnpackedFloat.unpack, UnpackedFloat.unpackMantissa_packComponents,
    UnpackedFloat.unpackExponent_packComponents, UnpackedFloat.unpackSign_packComponents,
    Sign.ofBitVec_toBitVec]
  split_ifs <;> rfl

/-- Nothing is lost when a finite double is taken apart and put together again. -/
theorem pack_unpack_packComponents (sign : Sign) {exponent : BitVec 11} (hfinite : exponent ≠ -1#11)
    (fraction : BitVec 52) :
    (UnpackedFloat.unpack .binary64 (packComponents .binary64 sign exponent fraction)).pack
      .binary64 = packComponents .binary64 sign exponent fraction := by
  rw [pack_unpack, if_neg]
  simpa [isNaNBits] using fun hlast ↦ absurd hlast hfinite

/-- The bits of a finite double do not have the exponent of infinity. -/
theorem exists_parts {value : Float} (hfinite : value.isFinite = true) :
    ∃ sign exponent fraction, exponent ≠ -1#11 ∧
      value.toBits.toBitVec = packComponents .binary64 sign exponent fraction := by
  refine ⟨_, _, _, fun hlast ↦ ?_,
    (@packComponents_unpackSign_unpackExponent_unpackMantissa .binary64 _).symm⟩
  change (UnpackedFloat.unpack .binary64 value.toBits.toBitVec).isFinite = true at hfinite
  unfold UnpackedFloat.unpack at hfinite
  simp only at hfinite
  rw [if_pos hlast] at hfinite
  split at hfinite <;> cases hfinite

section Parts

variable {value : Float} {sign : Sign} {exponent : BitVec 11} {fraction : BitVec 52}
  (hvalue : value.toBits.toBitVec = packComponents .binary64 sign exponent fraction)

include hvalue

theorem toNat_toBits : value.toBits.toNat
    = sign.toBitVec.toNat * 2 ^ 63 + exponent.toNat * 2 ^ 52 + fraction.toNat :=
  (congrArg BitVec.toNat hvalue).trans (toNat_packComponents sign exponent fraction)

/-- The ordinal of a double is made of its exponent and its fraction. -/
theorem ordinal_eq :
    ordinal value = (packComponents .binary64 .positive exponent fraction).toNat := by
  have hexponent := exponent.isLt
  have hfraction := fraction.isLt
  rw [ordinal, toNat_toBits hvalue, toNat_packComponents]
  change _ % 2 ^ 63 = 0 * 2 ^ 63 + _ + _
  omega

theorem isNegative_iff : isNegative value = true ↔ sign = .negative := by
  have hexponent := exponent.isLt
  have hfraction := fraction.isLt
  rw [isNegative, toNat_toBits hvalue, decide_eq_true_iff]
  change 2 ^ 63 ≤ _ ↔ _
  cases sign with
  | negative =>
    change _ ≤ 1 * 2 ^ 63 + _ + _ ↔ _
    simp only [iff_true]
    omega
  | positive =>
    change _ ≤ 0 * 2 ^ 63 + _ + _ ↔ _
    simp only [reduceCtorEq, iff_false]
    omega

end Parts

theorem ordinal_lt_infinity {value : Float} (hfinite : value.isFinite = true) :
    ordinal value < infinity := by
  obtain ⟨sign, exponent, fraction, hexponent, hvalue⟩ := exists_parts hfinite
  have hlast : exponent.toNat ≠ 2 ^ 11 - 1 := fun hlast ↦ hexponent (BitVec.eq_of_toNat_eq hlast)
  have hexponent : exponent.toNat < 2 ^ 11 := exponent.isLt
  have hfraction : fraction.toNat < 2 ^ 52 := fraction.isLt
  rw [ordinal_eq hvalue, toNat_packComponents]
  change 0 * 2 ^ 63 + _ + _ < 2047 * 2 ^ 52
  omega

/-- A finite double is made of its sign and the ordinal of its absolute value. -/
theorem toFloat_ordinal {value : Float} (hfinite : value.isFinite = true) :
    (if isNegative value then -toFloat (ordinal value) else toFloat (ordinal value)) = value := by
  obtain ⟨sign, exponent, fraction, hexponent, hvalue⟩ := exists_parts hfinite
  have hordinal : (UInt64.ofNat (ordinal value)).toBitVec
      = packComponents .binary64 .positive exponent fraction := by
    rw [ordinal_eq hvalue]
    exact BitVec.ofNat_toNat ..
  have hmagnitude : (toFloat (ordinal value)).toBits.toBitVec
      = packComponents .binary64 .positive exponent fraction := by
    change (UnpackedFloat.unpack .binary64 (UInt64.ofNat (ordinal value)).toBitVec).pack _ = _
    rw [hordinal, pack_unpack_packComponents _ hexponent]
  apply Float.toBits_inj.mp
  apply UInt64.eq_of_toBitVec_eq
  rw [hvalue]
  cases sign with
  | positive =>
    have hsign : ¬ isNegative value = true := by simp [isNegative_iff hvalue]
    rw [if_neg hsign]
    exact hmagnitude
  | negative =>
    rw [if_pos ((isNegative_iff hvalue).mpr rfl)]
    change (UnpackedFloat.unpack .binary64
      (toFloat (ordinal value)).toBits.toBitVec).neg.pack _ = _
    rw [hmagnitude, neg_unpack_packComponents]
    exact pack_unpack_packComponents _ hexponent fraction

end Lox.Binary64
