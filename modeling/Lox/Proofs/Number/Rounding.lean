import Lox.Number.Shortest
import Mathlib.Order.Monotone.Basic
import Mathlib.Tactic.Linarith
import Mathlib.Tactic.Ring

/-!
# Rounding to doubles

The ordinals of doubles go up with their values (`Binary64.units_strictMono`), and `Binary64.floor`
is the last ordinal of at most a given amount (`Binary64.units_floor`). So a quotient that lies
between the midpoints from a double to its two neighbours, or on one of them if the ordinal of the
double is even, is rounded to that double (`Binary64.nearest_eq`).

That is what the shortest decimal of a double is found by, and the double itself lies there in any
case. Hence the decimal is rounded to the double that it was found for (`Decimal.nearest_shortest`).
-/

set_option autoImplicit false
set_option relaxedAutoImplicit false

namespace Lox

namespace Binary64

theorem perBinade_pos : 0 < perBinade := Nat.pow_pos (by decide)

/-- The doubles of one binade stand at equal distances, and the next binade follows at the same
distance. -/
theorem units_binade (binade : Nat) {place : Nat} (hplace : place ≤ perBinade) :
    units ((binade + 1) * perBinade + place) = (perBinade + place) * Nat.pow 2 binade := by
  have hpos := perBinade_pos
  have hlarge : ¬ (binade + 1) * perBinade + place < perBinade := by
    rw [Nat.add_mul]
    omega
  rw [units, if_neg hlarge]
  obtain hlt | rfl := hplace.lt_or_eq
  · rw [Nat.mul_add_mod_self_right, Nat.mod_eq_of_lt hlt, Nat.mul_comm (binade + 1),
      Nat.mul_add_div hpos, Nat.div_eq_of_lt hlt, Nat.add_zero, Nat.add_sub_cancel]
  · rw [← Nat.succ_mul, Nat.mul_mod_left, Nat.mul_div_cancel _ hpos]
    have hdouble : Nat.pow 2 (binade + 1) = 2 * Nat.pow 2 binade := Nat.pow_succ'
    rw [show (binade + 1).succ - 1 = binade + 1 from rfl, hdouble]
    ring

theorem units_of_le {ordinal : Nat} (hordinal : ordinal ≤ perBinade) : units ordinal = ordinal := by
  obtain hlt | rfl := hordinal.lt_or_eq
  · rw [units, if_pos hlt]
  · have hstart := units_binade 0 (Nat.zero_le perBinade)
    simpa using hstart

/-- An ordinal stands before the first whole binade or at a place in one. -/
theorem lt_or_exists_binade (ordinal : Nat) : ordinal < perBinade ∨
    ∃ binade place, place < perBinade ∧ ordinal = (binade + 1) * perBinade + place := by
  have hpos := perBinade_pos
  by_cases hlt : ordinal < perBinade
  · exact .inl hlt
  · have hbinade : 0 < ordinal / perBinade := Nat.div_pos (Nat.not_lt.mp hlt) hpos
    refine .inr ⟨ordinal / perBinade - 1, ordinal % perBinade, Nat.mod_lt _ hpos, ?_⟩
    rw [Nat.sub_add_cancel hbinade, Nat.mul_comm, Nat.div_add_mod]

theorem units_lt_succ (ordinal : Nat) : units ordinal < units (ordinal + 1) := by
  obtain hlt | ⟨binade, place, hplace, rfl⟩ := lt_or_exists_binade ordinal
  · rw [units_of_le hlt.le, units_of_le hlt]
    exact Nat.lt_succ_self ordinal
  · rw [Nat.add_assoc, units_binade binade hplace.le, units_binade binade hplace]
    have hwidth : 0 < Nat.pow 2 binade := Nat.pow_pos (by decide)
    exact Nat.mul_lt_mul_of_pos_right (by omega) hwidth

theorem units_strictMono : StrictMono units := strictMono_nat_of_lt_succ units_lt_succ

/-- What is left of an amount when its low digits are dropped makes up a binade. -/
theorem div_bounds {amount : Nat} (hamount : perBinade ≤ amount) :
    perBinade ≤ amount / Nat.pow 2 (amount.log2 - 52) ∧
      amount / Nat.pow 2 (amount.log2 - 52) < 2 * perBinade := by
  have hne : amount ≠ 0 := (perBinade_pos.trans_le hamount).ne'
  have hlog : 52 ≤ amount.log2 := (Nat.le_log2 hne).mpr hamount
  have hsplit (more : Nat) : 2 ^ (amount.log2 + more)
      = 2 ^ more * perBinade * 2 ^ (amount.log2 - 52) := by
    change _ = 2 ^ more * 2 ^ 52 * 2 ^ (amount.log2 - 52)
    rw [← Nat.pow_add, ← Nat.pow_add]
    congr 1
    omega
  have hpos : 0 < 2 ^ (amount.log2 - 52) := Nat.pow_pos (by decide)
  constructor
  · refine (Nat.le_div_iff_mul_le hpos).mpr ?_
    have hlow := Nat.log2_self_le hne
    rwa [← Nat.add_zero amount.log2, hsplit 0, Nat.pow_zero, Nat.one_mul] at hlow
  · refine (Nat.div_lt_iff_lt_mul hpos).mpr ?_
    have hhigh := Nat.lt_log2_self (n := amount)
    rwa [hsplit 1, Nat.pow_one] at hhigh

/-- No ordinal of at most an amount comes later than its floor. -/
theorem units_floor (amount : Nat) :
    units (floor amount) ≤ amount ∧ amount < units (floor amount + 1) := by
  by_cases hsmall : amount < perBinade
  · have hdropped : amount.log2 - 52 = 0 := by
      by_cases hzero : amount = 0
      · rw [hzero]
        rfl
      · have := (Nat.log2_lt hzero).mpr hsmall
        omega
    have hfloor : floor amount = amount := by simp [floor, hdropped]
    rw [hfloor, units_of_le hsmall.le, units_of_le hsmall]
    exact ⟨le_rfl, Nat.lt_succ_self amount⟩
  · obtain ⟨hlow, hhigh⟩ := div_bounds (Nat.not_lt.mp hsmall)
    have hwidth : 0 < Nat.pow 2 (amount.log2 - 52) := Nat.pow_pos (by decide)
    have hfloor : floor amount = (amount.log2 - 52 + 1) * perBinade
        + (amount / Nat.pow 2 (amount.log2 - 52) - perBinade) := by
      rw [floor, Nat.add_mul]
      omega
    rw [hfloor, Nat.add_assoc, units_binade _ (by omega), units_binade _ (by omega),
      Nat.add_sub_cancel' hlow, ← Nat.add_assoc, Nat.add_sub_cancel' hlow]
    exact ⟨Nat.div_mul_le_self _ _, (Nat.div_lt_iff_lt_mul hwidth).mp (Nat.lt_succ_self _)⟩

/-! ### The nearest double -/

/-- A quotient between the midpoints to the neighbours of a double is nearest to that double. On a
midpoint it is so if the ordinal of the double is even. The largest double below the quotient is the
one before it or the double itself. -/
theorem nearest_eq {numerator denominator ordinal : Nat} (hdenominator : 0 < denominator)
    (hpositive : 0 < ordinal) (hfinite : ordinal < infinity)
    (hlow : (units (ordinal - 1) + units ordinal) * denominator
      ≤ 2 * (numerator * Nat.pow 2 1074))
    (hhigh : 2 * (numerator * Nat.pow 2 1074)
      ≤ (units ordinal + units (ordinal + 1)) * denominator)
    (hodd : ordinal % 2 = 1 →
      (units (ordinal - 1) + units ordinal) * denominator ≠ 2 * (numerator * Nat.pow 2 1074) ∧
        2 * (numerator * Nat.pow 2 1074)
          ≠ (units ordinal + units (ordinal + 1)) * denominator) :
    nearest numerator denominator = ordinal := by
  obtain ⟨before, rfl⟩ : ∃ before, ordinal = before + 1 := ⟨ordinal - 1, by omega⟩
  rw [Nat.add_sub_cancel] at hlow hodd
  unfold nearest
  generalize numerator * Nat.pow 2 1074 = scaled at hlow hhigh hodd ⊢
  generalize infinity = limit at hfinite ⊢
  have hbefore := units_lt_succ before
  have hbehind := units_lt_succ (before + 1)
  obtain ⟨hfrom, hto⟩ := units_floor (scaled / denominator)
  rw [Nat.le_div_iff_mul_le hdenominator] at hfrom
  rw [Nat.div_lt_iff_lt_mul hdenominator] at hto
  have hle : floor (scaled / denominator) < before + 2 := by
    rw [← units_strictMono.lt_iff_lt, ← Nat.mul_lt_mul_right hdenominator]
    nlinarith
  have hge : before < floor (scaled / denominator) + 1 := by
    rw [← units_strictMono.lt_iff_lt, ← Nat.mul_lt_mul_right hdenominator]
    nlinarith
  have hcases : floor (scaled / denominator) = before ∨
      floor (scaled / denominator) = before + 1 := by omega
  simp only
  rcases hcases with hfloor | hfloor <;> rw [hfloor]
  · generalize (units before + units (before + 1)) * denominator = low at hlow hodd ⊢
    split
    · omega
    · split <;> omega
  · generalize (units (before + 1) + units (before + 1 + 1)) * denominator = high at hhigh hodd ⊢
    split
    · omega
    · split <;> omega

theorem nearest_zero {denominator : Nat} (hdenominator : 0 < denominator) :
    nearest 0 denominator = 0 := by
  have hone : units 1 = 1 := units_of_le perBinade_pos
  have hfloor : floor 0 = 0 := rfl
  unfold nearest
  generalize Nat.pow 2 1074 = scale
  simp only [Nat.zero_mul, Nat.zero_div, hfloor, hone, units_of_le (Nat.zero_le _)]
  simp [hdenominator]

end Binary64

namespace Decimal

open Binary64

theorem mul_two_pow (amount : Nat) {exponent next : Nat} (hnext : exponent + 1 = next) :
    amount * Nat.pow 2 next = 2 * (amount * Nat.pow 2 exponent) := by
  subst hnext
  rw [show Nat.pow 2 (exponent + 1) = 2 * Nat.pow 2 exponent from Nat.pow_succ']
  exact Nat.mul_left_comm ..

theorem mul_ten_pow (amount exponent : Nat) :
    2 * (amount * Nat.pow 5 exponent * Nat.pow 2 exponent) = 2 * amount * Nat.pow 10 exponent := by
  have hten : Nat.pow 10 exponent = Nat.pow 5 exponent * Nat.pow 2 exponent :=
    Nat.mul_pow 5 2 exponent
  rw [hten]
  ring

theorem numerator_neg (digits places : Nat) :
    (⟨digits, -(places : Int)⟩ : Decimal).numerator = digits := by
  have hzero : (-(places : Int)).toNat = 0 := by omega
  rw [numerator, hzero]
  exact Nat.mul_one digits

theorem denominator_neg (digits places : Nat) :
    (⟨digits, -(places : Int)⟩ : Decimal).denominator = Nat.pow 10 places := by
  rw [denominator, neg_neg, Int.toNat_natCast]

theorem denominator_pos (decimal : Decimal) : 0 < decimal.denominator := Nat.pow_pos (by decide)

/-- A decimal that reads as a double is rounded to it. -/
theorem nearest_of_readsAs {decimal : Decimal} {ordinal : Nat}
    (hreads : decimal.readsAs ordinal = true) (hpositive : 0 < ordinal)
    (hfinite : ordinal < infinity) :
    nearest decimal.numerator decimal.denominator = ordinal := by
  unfold readsAs at hreads
  generalize hnext : 1075 = next at hreads
  rw [mul_two_pow _ hnext] at hreads
  split at hreads
  next heven =>
    simp only [Bool.and_eq_true, decide_eq_true_eq] at hreads
    refine nearest_eq decimal.denominator_pos hpositive hfinite hreads.1 hreads.2 fun hodd ↦ ?_
    cases heven.symm.trans hodd
  next =>
    simp only [Bool.and_eq_true, decide_eq_true_eq] at hreads
    exact nearest_eq decimal.denominator_pos hpositive hfinite (Nat.le_of_lt hreads.1)
      (Nat.le_of_lt hreads.2) fun _ ↦ ⟨Nat.ne_of_lt hreads.1, Nat.ne_of_lt hreads.2⟩

/-- The double itself, written out. -/
theorem readsAs_exact {ordinal : Nat} (hpositive : 0 < ordinal) :
    (exact ordinal).readsAs ordinal = true := by
  obtain ⟨ordinal, rfl⟩ : ∃ before, ordinal = before + 1 := ⟨ordinal - 1, by omega⟩
  have hbefore := units_lt_succ ordinal
  have hbehind := units_lt_succ (ordinal + 1)
  have hplaces : (-1074 : Int) = -((1074 : Nat) : Int) := rfl
  have hpos := (exact (ordinal + 1)).denominator_pos
  unfold readsAs
  generalize hnext : 1075 = next
  rw [mul_two_pow _ hnext]
  unfold exact at hpos ⊢
  rw [hplaces] at hpos ⊢
  generalize 1074 = places at hpos ⊢
  rw [denominator_neg] at hpos ⊢
  rw [numerator_neg, mul_ten_pow, Nat.add_sub_cancel]
  generalize Nat.pow 10 places = width at hpos
  have hlow : (units ordinal + units (ordinal + 1)) * width < 2 * units (ordinal + 1) * width :=
    Nat.mul_lt_mul_of_pos_right (by omega) hpos
  have hhigh : 2 * units (ordinal + 1) * width
      < (units (ordinal + 1) + units (ordinal + 1 + 1)) * width :=
    Nat.mul_lt_mul_of_pos_right (by omega) hpos
  simp [hlow, hlow.le, hhigh, hhigh.le]

theorem readsAs_of_onGrid? {ordinal : Nat} {exponent : Int} {decimal : Decimal}
    (hfound : onGrid? ordinal exponent = some decimal) : decimal.readsAs ordinal = true := by
  simp only [onGrid?] at hfound
  split at hfound
  next hlower hnext =>
    obtain rfl := Option.some.inj hfound
    cases (below ordinal exponent).isNearerThanNext ordinal with
    | true => exact hlower
    | false => exact hnext
  next hlower hnext =>
    obtain rfl := Option.some.inj hfound
    exact hlower
  next hlower hnext =>
    obtain rfl := Option.some.inj hfound
    exact hnext
  next => cases hfound

/-- Whatever grid a decimal is found on, it reads as the double. -/
theorem readsAs_firstHit {ordinal : Nat} (hpositive : 0 < ordinal) (tries : Nat)
    (exponent : Int) : (firstHit ordinal tries exponent).readsAs ordinal = true := by
  induction tries generalizing exponent with
  | zero => exact readsAs_exact hpositive
  | succ tries ih =>
    rw [firstHit]
    split
    · next hfound => exact readsAs_of_onGrid? hfound
    · exact ih (exponent - 1)

/-- The shortest decimal of a positive finite double is rounded to this double. -/
theorem nearest_shortest {ordinal : Nat} (hpositive : 0 < ordinal) (hfinite : ordinal < infinity) :
    nearest (shortest ordinal).numerator (shortest ordinal).denominator = ordinal :=
  nearest_of_readsAs (readsAs_firstHit hpositive _ _) hpositive hfinite

end Decimal

end Lox
