import Lox.Proofs.Lexical.Form
import Lox.Proofs.Number.Bits
import Lox.Proofs.Number.Rounding
import Lox.Text

/-!
# Numbers read back

A decimal in positional notation is a numeral for itself (`Number.form_positional`): the zeros that
are added behind the digits or before them are worth what the exponent says, and the digits behind
the point are as many as there are places.

With the shortest decimal of a double, which is rounded to this double, the text of a finite number
is the numeral of its absolute value, with a `-` before it if the sign is negative
(`Number.exists_magnitude`). So the sign is no part of the numeral, and it can be negative for
zero too.
-/

set_option autoImplicit false
set_option relaxedAutoImplicit false

namespace Lox.Number

theorem ofDigits_eq (digits : List Char) : ofDigits digits = Nat.ofDigitChars 10 digits 0 :=
  Nat.ofDigitChars_eq_foldl.symm

theorem ofDigits_append_zeros (digits : List Char) (count : Nat) :
    ofDigits (digits ++ List.replicate count '0') = 10 ^ count * ofDigits digits := by
  rw [ofDigits_eq, ofDigits_eq, Nat.ofDigitChars_append, Nat.ofDigitChars_replicate_zero]

theorem ofDigits_zeros_append (digits : List Char) (count : Nat) :
    ofDigits (List.replicate count '0' ++ digits) = ofDigits digits := by
  rw [ofDigits_eq, ofDigits_eq, Nat.ofDigitChars_append, Nat.ofDigitChars_replicate_zero,
    Nat.mul_zero]

/-- A number is what its digits write. -/
theorem ofDigits_toString (number : Nat) : ofDigits (toString number).toList = number := by
  rw [ofDigits_eq, Nat.toString_eq_ofList_toDigits, String.toList_ofList,
    Nat.ofDigitChars_ten_toDigits]

theorem isDigit_of_mem_toString {number : Nat} {digit : Char}
    (hmem : digit ∈ (toString number).toList) : digit.isDigit = true := by
  rw [Nat.toString_eq_ofList_toDigits, String.toList_ofList] at hmem
  exact Nat.isDigit_of_mem_toDigits (by decide) (by decide) hmem

theorem toString_ne_nil (number : Nat) : (toString number).toList ≠ [] := by
  rw [Nat.toString_eq_ofList_toDigits, String.toList_ofList]
  exact Nat.toDigits_ne_nil

theorem isDigit_of_mem_zeros {count : Nat} {digit : Char}
    (hmem : digit ∈ List.replicate count '0') : digit.isDigit = true := by
  rw [List.eq_of_mem_replicate hmem]
  rfl

/-- Decimals that are the same quotient are rounded alike. -/
theorem ofDecimal_congr {first second : Decimal} (hnumerator : first.numerator = second.numerator)
    (hdenominator : first.denominator = second.denominator) :
    ofDecimal first = ofDecimal second := by
  rw [ofDecimal, ofDecimal, hnumerator, hdenominator]

/-- Zeros behind the digits. -/
theorem form_whole_positional {decimal : Decimal} (hplaces : (-decimal.exponent).toNat = 0) :
    Lexeme.Form ((toString decimal.digits).toList ++ List.replicate decimal.exponent.toNat '0')
      (.number (ofDecimal decimal)) := by
  have hvalue : ofNumeral ((toString decimal.digits).toList
      ++ List.replicate decimal.exponent.toNat '0') [] = ofDecimal decimal := by
    refine ofDecimal_congr ?_ ?_
    · rw [List.append_nil, ofDigits_append_zeros, ofDigits_toString]
      exact (Decimal.numerator_neg _ 0).trans (Nat.mul_comm _ _)
    · rw [Decimal.denominator.eq_def decimal, hplaces]
      rfl
  rw [← hvalue]
  refine .whole (List.append_ne_nil_of_left_ne_nil (toString_ne_nil _) _) fun digit hmem ↦ ?_
  obtain hmem | hmem := List.mem_append.mp hmem
  · exact isDigit_of_mem_toString hmem
  · exact isDigit_of_mem_zeros hmem

/-- A point before as many digits as there are places. -/
theorem form_fractional_positional {decimal : Decimal} {whole fraction : List Char}
    (hwhole : whole ≠ []) (hplaces : fraction.length = (-decimal.exponent).toNat)
    (hsome : fraction ≠ []) {zeros : Nat}
    (hdigits : whole ++ fraction
      = List.replicate zeros '0' ++ (toString decimal.digits).toList) :
    Lexeme.Form (whole ++ '.' :: fraction) (.number (ofDecimal decimal)) := by
  have hall : ∀ digit ∈ whole ++ fraction, digit.isDigit = true := by
    intro digit hmem
    rw [hdigits] at hmem
    obtain hmem | hmem := List.mem_append.mp hmem
    · exact isDigit_of_mem_zeros hmem
    · exact isDigit_of_mem_toString hmem
  have hpositive : 0 < fraction.length := List.length_pos_iff.mpr hsome
  have hvalue : ofNumeral whole fraction = ofDecimal decimal := by
    refine ofDecimal_congr ?_ ?_
    · have hzero : decimal.exponent.toNat = 0 := by omega
      rw [hdigits, ofDigits_zeros_append, ofDigits_toString, Decimal.numerator_neg,
        Decimal.numerator, hzero]
      exact (Nat.mul_one _).symm
    · rw [Decimal.denominator_neg, hplaces]
      rfl
  rw [← hvalue]
  exact .fractional hwhole (fun digit hmem ↦ hall digit (List.mem_append_left _ hmem)) hsome
    fun digit hmem ↦ hall digit (List.mem_append_right _ hmem)

/-- A decimal in positional notation is a numeral, and it stands for what the decimal is rounded
to. -/
theorem form_positional (decimal : Decimal) :
    Lexeme.Form (positional decimal) (.number (ofDecimal decimal)) := by
  unfold positional
  simp only
  split
  · next hplaces => exact form_whole_positional hplaces
  · next hplaces =>
    generalize hpadded : List.replicate ((-decimal.exponent).toNat + 1
      - (toString decimal.digits).toList.length) '0' ++ (toString decimal.digits).toList = padded
    have hlength : (-decimal.exponent).toNat < padded.length := by
      rw [← hpadded, List.length_append, List.length_replicate]
      omega
    refine form_fractional_positional ?_ ?_ ?_
      ((List.take_append_drop ..).trans hpadded.symm)
    · rw [← List.length_pos_iff, List.length_take]
      omega
    · rw [List.length_drop]
      omega
    · rw [← List.length_pos_iff, List.length_drop]
      omega

/-! ### The text of a number -/

theorem form_zero : Lexeme.Form ['0'] (.number (Binary64.toFloat 0)) := by
  have hzero : ofDigits ['0'] = 0 := rfl
  have hvalue : ofNumeral ['0'] [] = Binary64.toFloat 0 := by
    have hdenominator := Decimal.denominator_pos ⟨0, -(([] : List Char).length : Int)⟩
    rw [ofNumeral, ofDecimal, List.append_nil, hzero, Decimal.numerator_neg,
      Binary64.nearest_zero hdenominator]
  rw [← hvalue]
  exact .whole (List.cons_ne_nil _ _) (List.forall_mem_singleton.mpr rfl)

/-- The text of a finite number is a numeral for its absolute value, behind a sign if the sign is
negative. -/
theorem exists_magnitude {value : Float} (hfinite : value.isFinite = true) :
    ∃ magnitude,
      (text value).toList = (if Binary64.isNegative value then ['-'] else []) ++ magnitude ∧
      Lexeme.Form magnitude (.number (Binary64.toFloat (Binary64.ordinal value))) := by
  have hbound := Binary64.ordinal_lt_infinity hfinite
  have hsigned (magnitude : List Char) :
      (String.ofList (if Binary64.isNegative value then '-' :: magnitude else magnitude)).toList
        = (if Binary64.isNegative value then ['-'] else []) ++ magnitude := by
    rw [String.toList_ofList]
    split <;> rfl
  unfold text
  simp only [if_neg (Nat.lt_asymm hbound), if_neg (Nat.ne_of_lt hbound), hsigned]
  refine ⟨_, rfl, ?_⟩
  split
  · next hzero =>
    rw [hzero]
    exact form_zero
  · next hpositive =>
    have hrounded := Decimal.nearest_shortest (Nat.pos_of_ne_zero hpositive) hbound
    have hform := form_positional (Decimal.shortest (Binary64.ordinal value))
    rwa [ofDecimal, hrounded] at hform

end Lox.Number
