import Mathlib.Algebra.Field.Basic
import Mathlib.Algebra.Field.Rat
import Mathlib.Data.Rat.Lemmas
import ExactPoly.Coeff

namespace ExactPoly

/-! Coefficients as rational numbers.

Every operation on finite coefficients is the rational operation followed by
`Coeff.ofRat`, which keeps a rational number that fits and turns any other one
into NaN.  The lemmas below state this once for each operation, so that later
developments calculate with rational numbers and never open the reduction.
-/

/-- A rational number whose lowest terms fit a coefficient. -/
def Representable (x : ℚ) : Prop :=
  InRange x.num x.den

instance (x : ℚ) : Decidable (Representable x) :=
  inferInstanceAs (Decidable (InRange _ _))

namespace Fraction

/-- The parts of a fraction are those of a rational number in lowest terms. -/
def value (a : Fraction) : ℚ :=
  ⟨a.num, a.den, Nat.ne_of_gt a.den_pos, a.coprime⟩

def ofRat (x : ℚ) (fits : Representable x) : Fraction :=
  ⟨x.num, x.den, x.den_pos, x.reduced, fits⟩

@[simp] theorem value_ofRat (x : ℚ) (fits : Representable x) : (ofRat x fits).value = x :=
  rfl

theorem representable_value (a : Fraction) : Representable a.value :=
  a.inRange

theorem value_eq_div (a : Fraction) : a.value = (a.num : ℚ) / (a.den : ℚ) :=
  (Rat.num_div_den a.value).symm

theorem value_injective {a b : Fraction} (same : a.value = b.value) : a = b := by
  cases a
  cases b
  cases same
  rfl

theorem value_eq_zero_iff {a : Fraction} : a.value = 0 ↔ a.num = 0 :=
  Rat.num_eq_zero.symm

end Fraction

namespace Ratio

/-- The quotient itself; zero for a zero denominator. -/
def value (r : Ratio) : ℚ :=
  (r.num : ℚ) / (r.den : ℚ)

theorem value_lowered {r : Ratio} (nonzero : r.den ≠ 0) : r.lowered.value = r.value := by
  have factor : (r.commonFactor : ℚ) ≠ 0 :=
    Nat.cast_ne_zero.mpr (Nat.ne_of_gt (commonFactor_pos nonzero))
  have num := Int.ediv_mul_cancel (Int.gcd_dvd_left r.num r.den)
  have den := Int.ediv_mul_cancel (Int.gcd_dvd_right r.num r.den)
  have numValue : (r.lowered.num : ℚ) * r.commonFactor = r.num := by exact_mod_cast num
  have denValue : (r.lowered.den : ℚ) * r.commonFactor = r.den := by exact_mod_cast den
  unfold value
  rw [← numValue, ← denValue, mul_div_mul_right _ _ factor]

theorem value_signed (r : Ratio) : r.signed.value = r.value := by
  unfold signed
  split
  · simp [value]
  · rfl

theorem value_lowest {r : Ratio} (nonzero : r.den ≠ 0) : r.lowest.value = r.value :=
  (value_signed _).trans (value_lowered nonzero)

theorem num_value {r : Ratio} (nonzero : r.den ≠ 0) : r.value.num = r.lowest.num := by
  rw [← value_lowest nonzero]
  exact Rat.num_div_eq_of_coprime (lowest_den_pos nonzero) (lowest_coprime nonzero)

theorem den_value {r : Ratio} (nonzero : r.den ≠ 0) : (r.value.den : Int) = r.lowest.den := by
  rw [← value_lowest nonzero]
  exact Rat.den_div_eq_of_coprime (lowest_den_pos nonzero) (lowest_coprime nonzero)

end Ratio

namespace Coeff

/-- The value of a finite coefficient.  That of NaN stands for nothing. -/
def value : Coeff → ℚ
  | nan => 0
  | finite a => a.value

/-- A rational number as a coefficient; NaN if it does not fit. -/
def ofRat (x : ℚ) : Coeff :=
  if fits : Representable x then finite (.ofRat x fits) else nan

@[simp] theorem value_zero : (0 : Coeff).value = 0 :=
  rfl

theorem zero_ne_nan : (0 : Coeff) ≠ nan :=
  Coeff.noConfusion

theorem exists_fraction {c : Coeff} (notNaN : c ≠ nan) : ∃ a, c = finite a := by
  cases c with
  | nan => contradiction
  | finite a => exact ⟨a, rfl⟩

theorem ofRat_eq_nan_iff {x : ℚ} : ofRat x = nan ↔ ¬ Representable x := by
  by_cases fits : Representable x <;> simp [ofRat, fits]

theorem ofRat_ne_nan_iff {x : ℚ} : ofRat x ≠ nan ↔ Representable x := by
  rw [Ne, ofRat_eq_nan_iff, not_not]

theorem value_ofRat {x : ℚ} (fits : Representable x) : (ofRat x).value = x := by
  simp [ofRat, fits, value]

theorem representable_value (c : Coeff) : Representable c.value := by
  cases c with
  | nan => decide
  | finite a => exact a.representable_value

theorem ofRat_value {c : Coeff} (finite : c ≠ nan) : ofRat c.value = c := by
  cases c with
  | nan => contradiction
  | finite a => exact dif_pos a.representable_value

theorem ofRat_zero : ofRat 0 = 0 :=
  ofRat_value zero_ne_nan

theorem value_injective {c d : Coeff} (cFinite : c ≠ nan) (dFinite : d ≠ nan)
    (same : c.value = d.value) : c = d := by
  rw [← ofRat_value cFinite, same, ofRat_value dFinite]

theorem value_eq_zero_iff {c : Coeff} (finite : c ≠ nan) : c.value = 0 ↔ c = 0 :=
  ⟨fun zero => value_injective finite zero_ne_nan zero, fun zero => congrArg value zero⟩

theorem ofRatio_undefined {r : Ratio} (zero : r.den = 0) : ofRatio r = nan :=
  dif_neg (not_not.mpr zero)

theorem ofRatio_eq {r : Ratio} (nonzero : r.den ≠ 0) : ofRatio r = ofRat r.value := by
  have range : InRange r.lowest.num r.lowest.den ↔ Representable r.value := by
    rw [Representable, Ratio.num_value nonzero, Ratio.den_value nonzero]
  unfold ofRatio ofRat
  rw [dif_pos nonzero]
  by_cases fits : Representable r.value
  · rw [dif_pos (range.mpr fits), dif_pos fits]
    congr 2
    · exact (Ratio.num_value nonzero).symm
    · exact (congrArg Int.natAbs (Ratio.den_value nonzero)).symm
  · rw [dif_neg (mt range.mp fits), dif_neg fits]

theorem ofInt_eq (n : Int) : ofInt n = ofRat n := by
  by_cases fits : InRange n 1
  · have representable : Representable (n : ℚ) := fits
    simp only [ofInt, ofRat, fits, representable, dif_pos]
    rfl
  · have unrepresentable : ¬ Representable (n : ℚ) := fits
    simp only [ofInt, ofRat, fits, unrepresentable, dif_neg, not_false_eq_true]

theorem nan_add (c : Coeff) : nan + c = nan :=
  rfl

theorem add_nan (c : Coeff) : c + nan = nan := by
  cases c <;> rfl

theorem nan_mul (c : Coeff) : nan * c = nan :=
  rfl

theorem mul_nan (c : Coeff) : c * nan = nan := by
  cases c <;> rfl

theorem neg_nan : -nan = nan :=
  rfl

theorem nan_div (c : Coeff) : nan / c = nan :=
  rfl

theorem add_eq {c d : Coeff} (cFinite : c ≠ nan) (dFinite : d ≠ nan) :
    c + d = ofRat (c.value + d.value) := by
  obtain ⟨a, rfl⟩ := exists_fraction cFinite
  obtain ⟨b, rfl⟩ := exists_fraction dFinite
  have aDen : (a.den : ℚ) ≠ 0 := Nat.cast_ne_zero.mpr (Nat.ne_of_gt a.den_pos)
  have bDen : (b.den : ℚ) ≠ 0 := Nat.cast_ne_zero.mpr (Nat.ne_of_gt b.den_pos)
  have nonzero : (a.sum b).den ≠ 0 := by
    simpa [Fraction.sum] using ⟨Nat.ne_of_gt a.den_pos, Nat.ne_of_gt b.den_pos⟩
  have exactSum : (a.sum b).value = a.value + b.value := by
    rw [a.value_eq_div, b.value_eq_div, div_add_div _ _ aDen bDen]
    simp [Ratio.value, Fraction.sum, mul_comm]
  exact (ofRatio_eq nonzero).trans (congrArg ofRat exactSum)

theorem mul_eq {c d : Coeff} (cFinite : c ≠ nan) (dFinite : d ≠ nan) :
    c * d = ofRat (c.value * d.value) := by
  obtain ⟨a, rfl⟩ := exists_fraction cFinite
  obtain ⟨b, rfl⟩ := exists_fraction dFinite
  have nonzero : (a.product b).den ≠ 0 := by
    simpa [Fraction.product] using ⟨Nat.ne_of_gt a.den_pos, Nat.ne_of_gt b.den_pos⟩
  have exactProduct : (a.product b).value = a.value * b.value := by
    rw [a.value_eq_div, b.value_eq_div, div_mul_div_comm]
    simp [Ratio.value, Fraction.product]
  exact (ofRatio_eq nonzero).trans (congrArg ofRat exactProduct)

theorem div_eq {c d : Coeff} (cFinite : c ≠ nan) (dFinite : d ≠ nan) (nonzero : d ≠ 0) :
    c / d = ofRat (c.value / d.value) := by
  obtain ⟨a, rfl⟩ := exists_fraction cFinite
  obtain ⟨b, rfl⟩ := exists_fraction dFinite
  have bNum : b.num ≠ 0 := by
    intro zero
    exact nonzero ((value_eq_zero_iff dFinite).mp (Fraction.value_eq_zero_iff.mpr zero))
  have denominator : (a.quotient b).den ≠ 0 :=
    mul_ne_zero (Int.natCast_ne_zero.mpr (Nat.ne_of_gt a.den_pos)) bNum
  have exactQuotient : (a.quotient b).value = a.value / b.value := by
    rw [a.value_eq_div, b.value_eq_div, div_div_div_eq]
    simp [Ratio.value, Fraction.quotient]
  exact (ofRatio_eq denominator).trans (congrArg ofRat exactQuotient)

theorem div_zero (c : Coeff) : c / 0 = nan := by
  cases c with
  | nan => rfl
  | finite a =>
      have zero : (a.quotient (.ofInt 0 (by decide))).den = 0 := Int.mul_zero _
      exact ofRatio_undefined zero

theorem add_finite {c d : Coeff} (finite : c + d ≠ nan) :
    c ≠ nan ∧ d ≠ nan ∧ (c + d).value = c.value + d.value := by
  have cFinite : c ≠ nan := fun isNaN => finite (isNaN ▸ nan_add d)
  have dFinite : d ≠ nan := fun isNaN => finite (isNaN ▸ add_nan c)
  rw [add_eq cFinite dFinite] at finite ⊢
  exact ⟨cFinite, dFinite, value_ofRat (ofRat_ne_nan_iff.mp finite)⟩

theorem mul_finite {c d : Coeff} (finite : c * d ≠ nan) :
    c ≠ nan ∧ d ≠ nan ∧ (c * d).value = c.value * d.value := by
  have cFinite : c ≠ nan := fun isNaN => finite (isNaN ▸ nan_mul d)
  have dFinite : d ≠ nan := fun isNaN => finite (isNaN ▸ mul_nan c)
  rw [mul_eq cFinite dFinite] at finite ⊢
  exact ⟨cFinite, dFinite, value_ofRat (ofRat_ne_nan_iff.mp finite)⟩

/-- A NaN divisor has to be excluded, since a finite coefficient over NaN is zero. -/
theorem div_finite {c d : Coeff} (dFinite : d ≠ nan) (finite : c / d ≠ nan) :
    c ≠ nan ∧ d ≠ 0 ∧ (c / d).value = c.value / d.value := by
  have cFinite : c ≠ nan := fun isNaN => finite (isNaN ▸ nan_div d)
  have nonzero : d ≠ 0 := fun zero => finite (zero ▸ div_zero c)
  rw [div_eq cFinite dFinite nonzero] at finite ⊢
  exact ⟨cFinite, nonzero, value_ofRat (ofRat_ne_nan_iff.mp finite)⟩

/-- The negation of the least numerator is the only one that does not fit. -/
theorem representable_neg_iff {x : ℚ} (fits : Representable x) :
    Representable (-x) ↔ x.num ≠ -9223372036854775808 := by
  obtain ⟨lower, upper, bound⟩ := fits
  rw [Representable, InRange, Rat.neg_num, Rat.neg_den]
  omega

theorem neg_eq {c : Coeff} (finite : c ≠ nan) : -c = ofRat (-c.value) := by
  cases c with
  | nan => contradiction
  | finite a =>
      have range := representable_neg_iff a.representable_value
      by_cases least : a.num = -9223372036854775808
      · have unrepresentable : ¬ Representable (-a.value) := fun fits => range.mp fits least
        rw [value, ofRat_eq_nan_iff.mpr unrepresentable]
        exact dif_pos least
      · have representable : Representable (-a.value) := range.mpr least
        rw [value, ofRat, dif_pos representable]
        exact dif_neg least

theorem neg_finite {c : Coeff} (finite : -c ≠ nan) : c ≠ nan ∧ (-c).value = -c.value := by
  have cFinite : c ≠ nan := fun isNaN => finite (isNaN ▸ neg_nan)
  rw [neg_eq cFinite] at finite ⊢
  exact ⟨cFinite, value_ofRat (ofRat_ne_nan_iff.mp finite)⟩

/-- The numerator is the one whose negation does not fit. -/
def Least (c : Coeff) : Prop :=
  c.num? = some (-9223372036854775808)

instance (c : Coeff) : Decidable c.Least :=
  inferInstanceAs (Decidable (_ = _))

theorem Least.finite {c : Coeff} (least : c.Least) : c ≠ nan := by
  rintro rfl
  contradiction

theorem least_iff {c : Coeff} (notNaN : c ≠ nan) : c.Least ↔ c.value.num = -9223372036854775808 := by
  obtain ⟨a, rfl⟩ := exists_fraction notNaN
  exact Option.some_inj

theorem neg_eq_nan_iff {c : Coeff} (notNaN : c ≠ nan) : -c = nan ↔ c.Least := by
  rw [neg_eq notNaN, ofRat_eq_nan_iff, representable_neg_iff (representable_value _), not_not,
    least_iff notNaN]

theorem neg_neg_of_not_least {c : Coeff} (notNaN : c ≠ nan)
    (notLeast : ¬ c.Least) : - -c = c := by
  have negated : -c ≠ nan := mt (neg_eq_nan_iff notNaN).mp notLeast
  have value : (-c).value = -c.value := (neg_finite negated).2
  rw [neg_eq negated, value, neg_neg, ofRat_value notNaN]

end Coeff

end ExactPoly
