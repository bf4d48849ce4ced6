import ExactPoly.Proofs.Coeff.Value

namespace ExactPoly

/-! Exactness of coefficient arithmetic.

An operation `Computes` a rational number if its result is NaN exactly when there
is no such number or the number does not fit, and has the parts of its lowest terms
otherwise.  Construction, sums, products, quotients and negations compute their
values.  Differences do not always: a difference is a sum with a negation, and the
negation of the least numerator is lost even where the difference fits.
-/

/-- The quotient of two rational numbers, if there is one. -/
def quotient? (x y : ℚ) : Option ℚ :=
  if y = 0 then none else some (x / y)

namespace Coeff

variable {c d : Coeff}

/-- The number in lowest terms, or NaN if there is none or it does not fit. -/
structure Computes (c : Coeff) (value? : Option ℚ) : Prop where
  nan_iff : c = nan ↔ ∀ x ∈ value?, ¬ Representable x
  lowest : c ≠ nan → ∃ num den, c.num? = some num ∧ c.den? = some den ∧
    0 < den ∧ num.natAbs.gcd den = 1 ∧ value? = some (num / den : ℚ)

theorem computes_nan : nan.Computes none :=
  ⟨iff_of_true rfl (fun _ found => nomatch found), fun notNaN => absurd rfl notNaN⟩

theorem computes_ofRat (x : ℚ) : (ofRat x).Computes (some x) where
  nan_iff := by
    rw [ofRat_eq_nan_iff]
    simp only [Option.mem_some_iff, forall_eq']
  lowest notNaN := by
    have fits : Representable x := ofRat_ne_nan_iff.mp notNaN
    have stored : ofRat x = finite (.ofRat x fits) := dif_pos fits
    have parts : (x.num / x.den : ℚ) = x := Rat.num_div_den x
    exact ⟨x.num, x.den, by rw [stored]; rfl, by rw [stored]; rfl, x.den_pos, x.reduced,
      by rw [parts]⟩

/-- A computed number determines the coefficient. -/
theorem computes_some_iff {x : ℚ} : c.Computes (some x) ↔ c = ofRat x := by
  refine ⟨fun computes => ?_, fun same => same ▸ computes_ofRat x⟩
  by_cases isNaN : c = nan
  · rw [isNaN, eq_comm, ofRat_eq_nan_iff]
    exact computes.nan_iff.mp isNaN x rfl
  · obtain ⟨num, den, numStored, denStored, -, -, same⟩ := computes.lowest isNaN
    obtain ⟨a, rfl⟩ := exists_fraction isNaN
    obtain rfl : a.num = num := Option.some.inj numStored
    obtain rfl : a.den = den := Option.some.inj denStored
    rw [Option.some.inj same, ← a.value_eq_div]
    exact (ofRat_value isNaN).symm

theorem computes_ofRatio (n d : Int) : (ofRatio ⟨n, d⟩).Computes (quotient? n d) := by
  by_cases zero : d = 0
  · have undefined : quotient? n d = none := if_pos (by exact_mod_cast zero)
    rw [undefined, ofRatio_undefined zero]
    exact computes_nan
  · have defined : quotient? n d = some (n / d : ℚ) := if_neg (by exact_mod_cast zero)
    rw [defined, ofRatio_eq zero]
    exact computes_ofRat _

theorem computes_add (cFinite : c ≠ nan) (dFinite : d ≠ nan) :
    (c + d).Computes (some (c.value + d.value)) := by
  rw [add_eq cFinite dFinite]
  exact computes_ofRat _

theorem computes_mul (cFinite : c ≠ nan) (dFinite : d ≠ nan) :
    (c * d).Computes (some (c.value * d.value)) := by
  rw [mul_eq cFinite dFinite]
  exact computes_ofRat _

theorem computes_div (cFinite : c ≠ nan) (dFinite : d ≠ nan) :
    (c / d).Computes (quotient? c.value d.value) := by
  by_cases zero : d = 0
  · subst d
    have undefined : quotient? c.value (0 : Coeff).value = none := if_pos value_zero
    rw [undefined, div_zero]
    exact computes_nan
  · have nonzero : d.value ≠ 0 := mt (value_eq_zero_iff dFinite).mp zero
    have defined : quotient? c.value d.value = some (c.value / d.value) := if_neg nonzero
    rw [defined, div_eq cFinite dFinite zero]
    exact computes_ofRat _

theorem computes_neg (finite : c ≠ nan) : (-c).Computes (some (-c.value)) := by
  rw [neg_eq finite]
  exact computes_ofRat _

/-- Only what does not exist or does not fit is lost, and the rest is in lowest terms. -/
theorem arithmetic_exact_or_nan (n d : Int) (a b : Fraction) :
    (ofRatio ⟨n, d⟩).Computes (quotient? n d) ∧
      (finite a + finite b).Computes (some (a.value + b.value)) ∧
      (finite a * finite b).Computes (some (a.value * b.value)) ∧
      (finite a / finite b).Computes (quotient? a.value b.value) ∧
      (-finite a).Computes (some (-a.value)) := by
  have aFinite : finite a ≠ nan := Coeff.noConfusion
  have bFinite : finite b ≠ nan := Coeff.noConfusion
  exact ⟨computes_ofRatio n d, computes_add aFinite bFinite, computes_mul aFinite bFinite,
    computes_div aFinite bFinite, computes_neg aFinite⟩

/-- The least integer over itself is one, although its negation does not fit. -/
example : ofRatio ⟨-9223372036854775808, -9223372036854775808⟩ = 1 := by decide +kernel

theorem sub_of_least (c : Coeff) (least : d.Least) : c - d = nan := by
  have lost : -d = nan := (neg_eq_nan_iff least.finite).mpr least
  change c + -d = nan
  rw [lost, add_nan]

theorem sub_eq (cFinite : c ≠ nan) (dFinite : d ≠ nan) (notLeast : ¬ d.Least) :
    c - d = ofRat (c.value - d.value) := by
  have kept : -d ≠ nan := mt (neg_eq_nan_iff dFinite).mp notLeast
  change c + -d = _
  rw [add_eq cFinite kept, (neg_finite kept).2, sub_eq_add_neg]

theorem computes_sub_iff (cFinite : c ≠ nan) (dFinite : d ≠ nan) :
    (c - d).Computes (some (c.value - d.value)) ↔
      ¬ (d.Least ∧ Representable (c.value - d.value)) := by
  rw [computes_some_iff]
  by_cases least : d.Least
  · rw [sub_of_least c least, eq_comm, ofRat_eq_nan_iff, and_iff_right least]
  · rw [sub_eq cFinite dFinite least]
    exact iff_of_true rfl (fun lost => least lost.1)

theorem sub_self_eq_zero_iff (finite : c ≠ nan) : c - c = 0 ↔ ¬ c.Least := by
  by_cases least : c.Least
  · rw [sub_of_least c least]
    exact iff_of_false zero_ne_nan.symm (fun notLeast => notLeast least)
  · rw [sub_eq finite finite least, sub_self, ofRat_zero]
    exact iff_of_true rfl least

/-- Subtraction is exact unless the least numerator is subtracted and the difference fits. -/
theorem difference_exact_iff (a b : Fraction) :
    ((finite a - finite b).Computes (some (a.value - b.value)) ↔
        ¬ ((finite b).Least ∧ Representable (a.value - b.value))) ∧
      ((finite b).Least → finite a - finite b = nan) ∧
      (finite a - finite a = 0 ↔ ¬ (finite a).Least) := by
  have aFinite : finite a ≠ nan := Coeff.noConfusion
  have bFinite : finite b ≠ nan := Coeff.noConfusion
  exact ⟨computes_sub_iff aFinite bFinite, sub_of_least (finite a), sub_self_eq_zero_iff aFinite⟩

/-- The least integer minus itself is zero, which fits, and yet the result is NaN. -/
theorem least_sub_least_is_nan :
    let least : Fraction := .ofInt (-9223372036854775808) (by decide)
    finite least - finite least = nan ∧ Representable (least.value - least.value) ∧
      ¬ (finite least - finite least).Computes (some (least.value - least.value)) := by
  intro least
  have isNaN : finite least - finite least = nan := by decide +kernel
  have fits : Representable (least.value - least.value) := by
    rw [sub_self]
    decide
  exact ⟨isNaN, fits, fun computes => computes.nan_iff.mp isNaN _ rfl fits⟩

end Coeff

end ExactPoly
