import ExactPoly.Proofs.Division.Exact
import ExactPoly.Proofs.Poly.Leading
import ExactPoly.Proofs.Poly.Operations

namespace ExactPoly.Poly

open Polynomial Division

/-! One step of long division on stored polynomials.

A step either computes what exact arithmetic does, or it leaves NaN because
something in it does not fit.  A step that reaches the divisor never faults.
-/

variable {divisor remaining product : Poly} {lead top q : Term}

/-- A step merges `q` into the quotient and goes on with `next`. -/
structure Step (divisor remaining : Poly) (q : Term) (next : Poly) : Prop where
  coeff : q.coeff = Coeff.ofRat (remaining.value.leadingCoeff / divisor.value.leadingCoeff)
  quotient : q.coeff ≠ .nan → q.value = quotientTerm divisor.value remaining.value
  wellFormed : next.WellFormed
  finite_iff : next.isNaN = false ↔ StepFits divisor.value remaining.value
  remainder : next.isNaN = false → next.value = remainderAfter divisor.value remaining.value

theorem leading_quotient (divisorLeads : Leads lead divisor) (remainingLeads : Leads top remaining)
    (reaches : lead.exponent.val ≤ top.exponent.val) :
    ∃ q, top.div lead = .ok q ∧
      q.coeff = Coeff.ofRat (remaining.value.leadingCoeff / divisor.value.leadingCoeff) ∧
      (q.coeff ≠ .nan → q.coeff ≠ 0 ∧ q.exponent.val = top.exponent.val - lead.exponent.val ∧
        q.value = quotientTerm divisor.value remaining.value) := by
  have topNonzero := mt (Coeff.value_eq_zero_iff remainingLeads.finite).mp remainingLeads.nonzero
  have leadNonzero := mt (Coeff.value_eq_zero_iff divisorLeads.finite).mp divisorLeads.nonzero
  have coeff := Coeff.div_eq remainingLeads.finite divisorLeads.finite divisorLeads.nonzero
  refine ⟨_, Term.div_eq remainingLeads.finite divisorLeads.finite reaches, ?_, ?_⟩
  · rw [Term.make_coeff, coeff, remainingLeads.leadingCoeff_value, divisorLeads.leadingCoeff_value]
  · rw [Term.make_coeff]
    intro finite
    have exactCoeff := (Coeff.div_finite divisorLeads.finite finite).2.2
    have nonzero : top.coeff / lead.coeff ≠ 0 := by
      rw [Ne, ← Coeff.value_eq_zero_iff finite, exactCoeff]
      exact div_ne_zero topNonzero leadNonzero
    refine ⟨nonzero, congrArg Exponent.val (Term.make_exponent nonzero finite), ?_⟩
    rw [Term.value_make, exactCoeff, quotientTerm, remainingLeads.natDegree_value,
      divisorLeads.natDegree_value, remainingLeads.leadingCoeff_value,
      divisorLeads.leadingCoeff_value]

theorem reduce_nan (divisor remaining : Poly) : reduce remaining divisor .nan = .ok nan := by
  rw [reduce, ofTerm_nan, mul_of_isNaN (.inr rfl)]
  exact congrArg Except.ok (add_of_isNaN (.inr rfl))

theorem sub_product (remainingProper : Proper remaining.terms) (finite : q.coeff ≠ .nan)
    (fits : Representable (remaining.value.leadingCoeff / divisor.value.leadingCoeff))
    (qValue : q.value = quotientTerm divisor.value remaining.value)
    (multiplied : divisor.mul (ofTerm q) = .ok product)
    (productFinite : product.isNaN = false ↔
      ∀ e, Representable ((divisor.value * q.value).coeff e)) :
    ((remaining.sub product).isNaN = false ↔ StepFits divisor.value remaining.value) ∧
      ((remaining.sub product).isNaN = false →
        (remaining.sub product).value = remainderAfter divisor.value remaining.value) := by
  by_cases overflow : product.isNaN = false
  · have productProper := (mul_wellFormed multiplied).proper overflow
    have productValue :
        product.value = divisor.value * quotientTerm divisor.value remaining.value := by
      rw [(mul_finite multiplied overflow).2.2, (ofTerm_of_finite finite).2, qValue]
    refine ⟨?_, fun notNaN => ?_⟩
    · rw [sub_isNaN_iff remainingProper productProper, productValue]
      rw [productFinite, qValue] at overflow
      exact ⟨fun ⟨negation, remainder⟩ => ⟨fits, overflow, negation, remainder⟩,
        fun step => ⟨step.negation, step.remainder⟩⟩
    · rw [(sub_finite notNaN).2.2, productValue, remainderAfter]
  · have spoilt : ¬ (remaining.sub product).isNaN = false := fun notNaN =>
      overflow (sub_finite notNaN).2.1
    refine ⟨iff_of_false spoilt fun step => overflow ?_, fun notNaN => absurd notNaN spoilt⟩
    rw [productFinite, qValue]
    exact step.product

theorem step_exists (divisorLeads : Leads lead divisor) (remainingLeads : Leads top remaining)
    (reaches : lead.exponent.val ≤ top.exponent.val) :
    ∃ q next, top.div lead = .ok q ∧ reduce remaining divisor q = .ok next ∧
      Step divisor remaining q next := by
  obtain ⟨q, divided, coeff, parts⟩ := leading_quotient divisorLeads remainingLeads reaches
  by_cases finite : q.coeff = .nan
  · have unfit : ¬ StepFits divisor.value remaining.value := by
      intro step
      exact Coeff.ofRat_ne_nan_iff.mpr step.quotient (coeff.symm.trans finite)
    obtain rfl := Term.eq_nan finite
    exact ⟨_, _, divided, reduce_nan divisor remaining, coeff, fun kept => absurd rfl kept,
      .inl rfl, iff_of_false (by decide) unfit, fun notNaN => absurd notNaN (by decide)⟩
  · obtain ⟨nonzero, exponent, qValue⟩ := parts finite
    have room : ∀ u ∈ divisor.terms, u.exponent.val + q.exponent.val ≤ 4294967295 := by
      intro u member
      have := divisorLeads.exponent_le u member
      have := top.exponent.val_le
      omega
    have fits : Representable (remaining.value.leadingCoeff / divisor.value.leadingCoeff) :=
      Coeff.ofRat_ne_nan_iff.mp (coeff ▸ finite)
    obtain ⟨product, multiplied, productFinite⟩ :=
      mul_ofTerm divisorLeads.proper finite nonzero room
    have reduced : reduce remaining divisor q = .ok (remaining.sub product) := by
      rw [reduce, multiplied]
      rfl
    obtain ⟨finite_iff, remainder⟩ :=
      sub_product remainingLeads.proper finite fits qValue multiplied productFinite
    exact ⟨q, _, divided, reduced, coeff, fun _ => qValue,
      sub_wellFormed (.inr remainingLeads.proper), finite_iff, remainder⟩

end ExactPoly.Poly
