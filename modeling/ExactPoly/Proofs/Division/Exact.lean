import Mathlib.Algebra.Polynomial.FieldDivision
import Mathlib.Tactic.LinearCombination
import ExactPoly.Proofs.Coeff.Value

namespace ExactPoly.Division

open Polynomial

/-! Long division in exact arithmetic.

One step cancels the leading term of what remains.  The steps are those of the
school method over the rational numbers; `StepFits` says that coefficients of
fixed width can carry one of them out.
-/

variable {d p q r : ℚ[X]}

noncomputable def quotientTerm (d r : ℚ[X]) : ℚ[X] :=
  monomial (r.natDegree - d.natDegree) (r.leadingCoeff / d.leadingCoeff)

noncomputable def remainderAfter (d r : ℚ[X]) : ℚ[X] :=
  r - d * quotientTerm d r

/-- Everything that a step computes fits: the quotient of the leading
coefficients, the product of the divisor with it, its negation, and what
remains. -/
structure StepFits (d r : ℚ[X]) : Prop where
  quotient : Representable (r.leadingCoeff / d.leadingCoeff)
  product : ∀ e, Representable ((d * quotientTerm d r).coeff e)
  negation : ∀ e, ((d * quotientTerm d r).coeff e).num ≠ -9223372036854775808
  remainder : ∀ e, Representable ((remainderAfter d r).coeff e)

/-- The division meets a step that does not fit, although its quotient
coefficient does, and this step is not the last. -/
inductive CutShort (d : ℚ[X]) : ℚ[X] → Prop where
  | here {r : ℚ[X]} (reaches : d.degree ≤ r.degree)
      (quotient : Representable (r.leadingCoeff / d.leadingCoeff)) (overflows : ¬ StepFits d r)
      (unfinished : d.degree ≤ (remainderAfter d r).degree) : CutShort d r
  | later {r : ℚ[X]} (reaches : d.degree ≤ r.degree) (fits : StepFits d r)
      (rest : CutShort d (remainderAfter d r)) : CutShort d r

theorem CutShort.reaches (cut : CutShort d r) : d.degree ≤ r.degree := by
  cases cut with
  | here reaches => exact reaches
  | later reaches => exact reaches

theorem cutShort_iff_later (reaches : d.degree ≤ r.degree) (fits : StepFits d r) :
    CutShort d r ↔ CutShort d (remainderAfter d r) := by
  constructor
  · intro cut
    cases cut with
    | here _ _ overflows => exact absurd fits overflows
    | later _ _ rest => exact rest
  · exact .later reaches fits

theorem cutShort_iff_unfinished (reaches : d.degree ≤ r.degree)
    (quotient : Representable (r.leadingCoeff / d.leadingCoeff)) (overflows : ¬ StepFits d r) :
    CutShort d r ↔ d.degree ≤ (remainderAfter d r).degree := by
  constructor
  · intro cut
    cases cut with
    | here _ _ _ unfinished => exact unfinished
    | later _ fits => exact absurd fits overflows
  · exact .here reaches quotient overflows

theorem ne_zero_of_reaches (nonzero : d ≠ 0) (reaches : d.degree ≤ r.degree) : r ≠ 0 := by
  intro zero
  rw [zero, degree_zero, le_bot_iff, degree_eq_bot] at reaches
  exact nonzero reaches

theorem remainderAfter_degree_lt (nonzero : d ≠ 0) (reaches : d.degree ≤ r.degree) :
    (remainderAfter d r).degree < r.degree := by
  have rNonzero := ne_zero_of_reaches nonzero reaches
  have dLeading : d.leadingCoeff ≠ 0 := leadingCoeff_ne_zero.mpr nonzero
  have quotientNonzero : r.leadingCoeff / d.leadingCoeff ≠ 0 :=
    div_ne_zero (leadingCoeff_ne_zero.mpr rNonzero) dLeading
  have sameDegree : r.degree = (d * quotientTerm d r).degree := by
    rw [degree_mul, quotientTerm, degree_monomial _ quotientNonzero, degree_eq_natDegree nonzero,
      degree_eq_natDegree rNonzero, ← Nat.cast_add,
      Nat.add_sub_cancel' (natDegree_le_natDegree reaches)]
  have sameLeading : r.leadingCoeff = (d * quotientTerm d r).leadingCoeff := by
    rw [leadingCoeff_mul, quotientTerm, leadingCoeff_monomial, mul_div_cancel₀ _ dLeading]
  exact degree_sub_lt_left sameDegree rNonzero sameLeading

theorem eq_div_iff (nonzero : d ≠ 0) : q = p / d ↔ (p - d * q).degree < d.degree := by
  have identity := EuclideanDomain.div_add_mod p d
  have remainder : (p % d).degree < d.degree := degree_mod_lt p nonzero
  constructor
  · intro quotient
    rwa [quotient, ← eq_sub_of_add_eq' identity]
  · intro lower
    have difference : d * (q - p / d) = p % d - (p - d * q) := by
      linear_combination -identity
    have small : (d * (q - p / d)).degree < d.degree := by
      rw [difference]
      exact (degree_sub_le _ _).trans_lt (max_lt remainder lower)
    by_contra different
    have large := degree_le_mul_left d (sub_ne_zero.mpr different)
    exact absurd small (not_lt.mpr large)

end ExactPoly.Division
