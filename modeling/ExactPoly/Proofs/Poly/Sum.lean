import ExactPoly.Proofs.Poly.Coefficients

namespace ExactPoly.Poly

open Polynomial

/-! Sums and differences of polynomials, exactly.

A sum is NaN exactly when the coefficients at some exponent have a sum that does not
fit, and holds all these sums otherwise; the order of the operands does not matter.
A difference is a sum with a negation.  It obeys the laws of an additive inverse until
the least numerator, which has no negation, is subtracted: then it is NaN throughout.
-/

variable {p q : Poly}

theorem add_computes (pProper : Proper p.terms) (qProper : Proper q.terms) :
    (p.add q).Computes fun e => p.coeffAt e + q.coeffAt e := by
  refine WellFormed.computes (add_wellFormed (.inr pProper)) ?_ fun finite e => ?_
  · -- Beyond the greatest exponent there are only zeros to add.
    have large : ∀ e, 4294967295 < e → Representable (p.value.coeff e + q.value.coeff e) := by
      intro e above
      rw [coeff_value_of_large p above, coeff_value_of_large q above, add_zero]
      decide
    rw [add_isNaN_iff (.inr pProper) (.inr qProper) pProper.isNaN_eq_false qProper.isNaN_eq_false,
      forall_exponent_iff large]
    simp only [pProper.coeffAt_eq, qProper.coeffAt_eq]
  · rw [(add_finite finite).2.2, coeff_add, pProper.coeffAt_eq, qProper.coeffAt_eq]

theorem add_exchange (pWellFormed : p.WellFormed) (qWellFormed : q.WellFormed) :
    p.add q = q.add p := by
  by_cases undefined : p.isNaN = true ∨ q.isNaN = true
  · rw [add_of_isNaN undefined, add_of_isNaN undefined.symm]
  · obtain ⟨pFinite, qFinite⟩ : p.isNaN = false ∧ q.isNaN = false := by simpa using undefined
    have sameValue : (p.add q).isNaN = false → (q.add p).isNaN = false →
        (p.add q).value = (q.add p).value := by
      intro leftFinite rightFinite
      rw [(add_finite leftFinite).2.2, (add_finite rightFinite).2.2, add_comm]
    rw [eq_iff_isNaN (add_wellFormed pWellFormed) (add_wellFormed qWellFormed) sameValue,
      add_isNaN_iff pWellFormed qWellFormed pFinite qFinite,
      add_isNaN_iff qWellFormed pWellFormed qFinite pFinite]
    simp only [add_comm]

/-- Addition is exact at every exponent or NaN, and commutative on all polynomials. -/
theorem add_characterized (pReachable : Reachable p) (qReachable : Reachable q) :
    (p.isNaN = false → q.isNaN = false →
        (p.add q).Computes fun e => p.coeffAt e + q.coeffAt e) ∧
      p.add q = q.add p := by
  have pWellFormed := pReachable.wellFormed
  have qWellFormed := qReachable.wellFormed
  refine ⟨fun pFinite qFinite => ?_, add_exchange pWellFormed qWellFormed⟩
  exact add_computes (pWellFormed.proper pFinite) (qWellFormed.proper qFinite)

/-- The terms at `x^2` cancel, and the ones at `x` reach the greatest numerator. -/
theorem cancelling_sum_computes :
    let p := (monomial 2 ⟨2, by decide⟩).add (monomial 9223372036854775806 1)
    let q := ((monomial (-2) ⟨2, by decide⟩).add (monomial 1 1)).add (monomial 3 0)
    Reachable p ∧ Reachable q ∧ p.isNaN = false ∧ q.isNaN = false ∧
      ((p.add q).Computes fun e => p.coeffAt e + q.coeffAt e) ∧ p.add q = q.add p ∧
      p.add q = (monomial 9223372036854775807 1).add (monomial 3 0) := by
  intro p q
  have pReachable : Reachable p := (Reachable.monomial _ _).add (.monomial _ _)
  have qReachable : Reachable q := ((Reachable.monomial _ _).add (.monomial _ _)).add (.monomial _ _)
  obtain ⟨computes, exchange⟩ := add_characterized pReachable qReachable
  exact ⟨pReachable, qReachable, rfl, rfl, computes rfl rfl, exchange, by decide +kernel⟩

/-- A negation that loses nothing; the least numerator is the only one without it. -/
theorem neg_of_not_least (proper : Proper q.terms) (noneLeast : ∀ t ∈ q.terms, ¬ t.coeff.Least) :
    Proper q.neg.terms ∧ q.neg.value = -q.value := by
  have finite := (neg_isNaN_iff_least proper).mpr noneLeast
  exact ⟨(neg_wellFormed (.inr proper)).proper finite, (neg_finite finite).2⟩

theorem add_sub_cancel_of_not_least (pProper : Proper p.terms) (qProper : Proper q.terms)
    (noneLeast : ∀ t ∈ q.terms, ¬ t.coeff.Least) (finite : (p.add q).isNaN = false) :
    (p.add q).sub q = p := by
  have sumWellFormed : (p.add q).WellFormed := add_wellFormed (.inr pProper)
  -- The coefficients of the difference are those of `p`, so they fit.
  have restored : (p.add q).value - q.value = p.value := by
    rw [(add_finite finite).2.2, add_sub_cancel_right]
  have fits : ((p.add q).sub q).isNaN = false := by
    rw [sub_isNaN_iff (sumWellFormed.proper finite) qProper, restored, ← neg_isNaN_iff qProper]
    exact ⟨(neg_isNaN_iff_least qProper).mpr noneLeast, pProper.representable_coeff⟩
  apply value_injective (sub_wellFormed sumWellFormed) (.inr pProper) fits pProper.isNaN_eq_false
  rw [(sub_finite fits).2.2, restored]

theorem add_neg_of_not_least (proper : Proper q.terms)
    (noneLeast : ∀ t ∈ q.terms, ¬ t.coeff.Least) : q.add q.neg = 0 := by
  obtain ⟨negProper, negated⟩ := neg_of_not_least proper noneLeast
  have fits : (q.add q.neg).isNaN = false := by
    rw [add_isNaN_iff (.inr proper) (.inr negProper) proper.isNaN_eq_false negProper.isNaN_eq_false,
      negated]
    intro e
    rw [coeff_neg, add_neg_cancel]
    decide
  apply value_injective (add_wellFormed (.inr proper)) (.inr proper_nil) fits rfl
  rw [(add_finite fits).2.2, negated, add_neg_cancel]
  rfl

theorem neg_neg_of_not_least (proper : Proper q.terms)
    (noneLeast : ∀ t ∈ q.terms, ¬ t.coeff.Least) : q.neg.neg = q := by
  obtain ⟨negProper, negated⟩ := neg_of_not_least proper noneLeast
  have fits : q.neg.neg.isNaN = false := by
    rw [neg_isNaN_iff negProper, negated]
    intro e
    -- Only a numerator beyond the greatest one has the least one as its negation.
    have upper : (q.value.coeff e).num ≤ 9223372036854775807 := (proper.representable_coeff e).2.1
    rw [coeff_neg, Rat.neg_num]
    omega
  apply value_injective (neg_wellFormed (.inr negProper)) (.inr proper) fits proper.isNaN_eq_false
  rw [(neg_finite fits).2, negated, neg_neg]

theorem sub_computes (pProper : Proper p.terms) (qProper : Proper q.terms)
    (noneLeast : ∀ t ∈ q.terms, ¬ t.coeff.Least) :
    (p.sub q).Computes fun e => p.coeffAt e - q.coeffAt e := by
  obtain ⟨negProper, negated⟩ := neg_of_not_least qProper noneLeast
  have opposite : ∀ e, q.neg.coeffAt e = -q.coeffAt e := by
    intro e
    rw [negProper.coeffAt_eq, negated, coeff_neg, qProper.coeffAt_eq]
  have sum := add_computes pProper negProper
  simp only [opposite, ← sub_eq_add_neg] at sum
  exact sum

/-- Subtraction undoes addition as long as no numerator is the least one; otherwise the negation
and every difference is NaN. -/
theorem additive_inverse (pReachable : Reachable p) (qReachable : Reachable q)
    (pFinite : p.isNaN = false) (qFinite : q.isNaN = false) :
    ((∀ t ∈ q.terms, ¬ t.coeff.Least) →
        (p.add q ≠ nan → (p.add q).sub q = p) ∧ q.add q.neg = 0 ∧ q.neg.neg = q ∧
          (p.sub q).Computes fun e => p.coeffAt e - q.coeffAt e) ∧
      ((∃ t ∈ q.terms, t.coeff.Least) → q.neg = nan ∧ ∀ s : Poly, s.sub q = nan) := by
  have pProper := pReachable.wellFormed.proper pFinite
  have qProper := qReachable.wellFormed.proper qFinite
  refine ⟨fun noneLeast => ⟨fun notNaN => ?_, add_neg_of_not_least qProper noneLeast,
    neg_neg_of_not_least qProper noneLeast, sub_computes pProper qProper noneLeast⟩,
    fun someLeast => ?_⟩
  · have finite := (add_wellFormed pReachable.wellFormed).ne_nan_iff.mp notNaN
    exact add_sub_cancel_of_not_least pProper qProper noneLeast finite
  · have lost : q.neg.isNaN = true := by
      rw [← Bool.not_eq_false, neg_isNaN_iff_least qProper]
      simpa using someLeast
    exact ⟨(neg_wellFormed qReachable.wellFormed).eq_nan lost, fun s => add_of_isNaN (.inr lost)⟩

/-- The constant vanishes in the sum and comes back in the difference; with the least numerator
there is no difference. -/
theorem vanished_constant_returns :
    let p := (monomial 1 1).add (monomial 5 0)
    let q := (monomial 7 ⟨3, by decide⟩).add (monomial (-5) 0)
    let r := (monomial (-9223372036854775808) 1).add (monomial 1 0)
    Reachable p ∧ Reachable q ∧ Reachable r ∧ p.isNaN = false ∧ q.isNaN = false ∧ r.isNaN = false ∧
      (∀ t ∈ q.terms, ¬ t.coeff.Least) ∧ (p.add q).coeffAt 0 = 0 ∧ (p.add q).sub q = p ∧
      (∃ t ∈ r.terms, t.coeff.Least) ∧ p.sub r = nan := by
  intro p q r
  have pReachable : Reachable p := (Reachable.monomial _ _).add (.monomial _ _)
  have qReachable : Reachable q := (Reachable.monomial _ _).add (.monomial _ _)
  have rReachable : Reachable r := (Reachable.monomial _ _).add (.monomial _ _)
  have noneLeast : ∀ t ∈ q.terms, ¬ t.coeff.Least := by decide +kernel
  have someLeast : ∃ t ∈ r.terms, t.coeff.Least := by decide +kernel
  have notNaN : p.add q ≠ nan := by decide +kernel
  obtain ⟨laws, -⟩ := additive_inverse pReachable qReachable rfl rfl
  obtain ⟨-, lost⟩ := additive_inverse pReachable rReachable rfl rfl
  exact ⟨pReachable, qReachable, rReachable, rfl, rfl, rfl, noneLeast, by decide +kernel,
    (laws noneLeast).1 notNaN, someLeast, (lost someLeast).2 p⟩

end ExactPoly.Poly
