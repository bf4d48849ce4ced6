import ExactPoly.Proofs.Division.Run
import ExactPoly.Proofs.Poly.Reachable

namespace ExactPoly.Poly

open Polynomial Division

/-! When a quotient that is not NaN is the Euclidean one.

The terms that a run collects are those of exact arithmetic, but the run may end
before all of them are found.  `CutShort` says in exact arithmetic when it does.
-/

variable {p d q divisor remaining : Poly} {lead : Term} {quotient results : List Term}
  {rounds : Nat} {outcome : Except Fault (List Term)}

/-- A run collects the quotient of exact arithmetic, except where it is cut short. -/
theorem DivisionRun.degree_lt_iff (run : DivisionRun divisor lead remaining quotient rounds outcome)
    (ended : outcome = .ok results) (free : NaNFree results) :
    NaNFree quotient ∧
      ((remaining.value - divisor.value * (valueOf results - valueOf quotient)).degree <
        divisor.value.degree ↔ ¬ CutShort divisor.value remaining.value) := by
  induction run with
  | finished below =>
      cases ended
      rw [sub_self, mul_zero, sub_zero]
      exact ⟨free, iff_of_true below (fun cut => not_lt.mpr cut.reaches below)⟩
  | @continued remaining next q quotient rounds outcome reaches step fits rest ih =>
      obtain ⟨mergedFree, exactness⟩ := ih ended
      obtain ⟨quotientFree, finite⟩ := mergeTerm_nanFree mergedFree
      have nextValue := step.remainder (step.finite_iff.mpr fits)
      -- What the step took off the dividend is what it put into the quotient.
      have same : next.value -
          divisor.value * (valueOf results - valueOf (mergeTerm quotient q)) =
          remaining.value - divisor.value * (valueOf results - valueOf quotient) := by
        rw [nextValue, remainderAfter, valueOf_mergeTerm mergedFree, step.quotient finite]
        ring
      rw [cutShort_iff_later reaches fits, ← nextValue, ← exactness, same]
      exact ⟨quotientFree, Iff.rfl⟩
  | @stopped remaining next q quotient reaches step overflows positive =>
      cases ended
      obtain ⟨quotientFree, finite⟩ := mergeTerm_nanFree free
      have fits : Representable (remaining.value.leadingCoeff / divisor.value.leadingCoeff) :=
        Coeff.ofRat_ne_nan_iff.mp (step.coeff ▸ finite)
      rw [cutShort_iff_unfinished reaches fits overflows, not_le, valueOf_mergeTerm free,
        add_sub_cancel_left, step.quotient finite]
      exact ⟨quotientFree, Iff.rfl⟩
  | faulted => contradiction

theorem div_eq_loop (dLeads : Leads lead d) (pFinite : p.isNaN = false) :
    p.div d = (divisionLoop d lead p []).map ofTerms := by
  have dFinite : d.isNaN = false := dLeads.proper.isNaN_eq_false
  rw [div, if_neg (by simp [pFinite, dFinite])]
  simp only [dLeads.leading]

theorem WellFormed.exists_leads (wellFormed : d.WellFormed) (finite : d.isNaN = false)
    (nonzero : d.terms ≠ []) : ∃ lead, Leads lead d := by
  cases leading : d.leading? with
  | none => exact absurd (leading?_eq_none_iff.mp leading) nonzero
  | some lead => exact ⟨lead, wellFormed.proper finite, leading⟩

/-- A quotient other than NaN is the Euclidean quotient exactly when no step that
is not the last one overflows. -/
theorem div_eq_euclidean_iff (pReachable : Reachable p) (dReachable : Reachable d)
    (pFinite : p.isNaN = false) (dFinite : d.isNaN = false) (nonzero : d.terms ≠ [])
    (divided : p.div d = .ok q) (finite : q.isNaN = false) :
    ((p.value - d.value * q.value).degree < d.value.degree ↔ ¬ CutShort d.value p.value) ∧
      (q.value = p.value / d.value ↔ ¬ CutShort d.value p.value) := by
  obtain ⟨lead, dLeads⟩ := dReachable.wellFormed.exists_leads dFinite nonzero
  have proper := pReachable.wellFormed.proper pFinite
  rw [div_eq_loop dLeads pFinite] at divided
  obtain ⟨terms, ended, rfl⟩ := map_ok_iff.mp divided
  obtain ⟨free, value⟩ := value_ofTerms finite
  obtain ⟨_, run⟩ := divisionLoop_run dLeads proper []
  obtain ⟨_, exactness⟩ := run.degree_lt_iff ended free
  rw [valueOf_nil, sub_zero, ← value] at exactness
  exact ⟨exactness, (eq_div_iff dLeads.value_ne_zero).trans exactness⟩

/-- Dividing `x^2-1` by `x-1` makes both of its steps, and leaves no remainder. -/
theorem difference_of_squares_div_eq :
    let p := (monomial 1 ⟨2, by decide⟩).sub (monomial 1 0)
    let d := (monomial 1 1).sub (monomial 1 0)
    let q := (monomial 1 1).add (monomial 1 0)
    Reachable p ∧ Reachable d ∧ p.isNaN = false ∧ d.isNaN = false ∧ d.terms ≠ [] ∧
      p.div d = .ok q ∧ q.isNaN = false ∧
      ((p.value - d.value * q.value).degree < d.value.degree ↔ ¬ CutShort d.value p.value) ∧
      (q.value = p.value / d.value ↔ ¬ CutShort d.value p.value) ∧
      ¬ CutShort d.value p.value ∧ p.value - d.value * q.value = 0 ∧
      q.value = p.value / d.value := by
  intro p d q
  have pReachable : Reachable p := (Reachable.monomial _ _).sub (.monomial _ _)
  have dReachable : Reachable d := (Reachable.monomial _ _).sub (.monomial _ _)
  have divided : p.div d = .ok q := by decide +kernel
  obtain ⟨remainder, quotient⟩ :=
    div_eq_euclidean_iff pReachable dReachable rfl rfl (by decide) divided rfl
  obtain ⟨lead, dLeads⟩ := dReachable.wellFormed.exists_leads rfl (by decide)
  have product : d.mul q = .ok p := by decide +kernel
  have noRemainder : p.value - d.value * q.value = 0 :=
    sub_eq_zero.mpr (mul_finite product rfl).2.2
  have whole : ¬ CutShort d.value p.value := by
    rw [← remainder, noRemainder, degree_zero, bot_lt_iff_ne_bot, Ne, degree_eq_bot]
    exact dLeads.value_ne_zero
  exact ⟨pReachable, dReachable, rfl, rfl, by decide, divided, rfl, remainder, quotient, whole,
    noRemainder, quotient.mpr whole⟩

/-- The quotient of `2*x^2` by `x+9223372036854775807` misses its constant term,
because the product in the first step overflows. -/
theorem div_misses_constant_term :
    let p := monomial 2 ⟨2, by decide⟩
    let d := (monomial 1 1).add (monomial 9223372036854775807 0)
    let q := monomial 2 1
    Reachable p ∧ Reachable d ∧ p.isNaN = false ∧ d.isNaN = false ∧ d.terms ≠ [] ∧
      p.div d = .ok q ∧ q.isNaN = false ∧
      ¬ (p.value - d.value * q.value).degree < d.value.degree := by
  intro p d q
  have dReachable : Reachable d := (Reachable.monomial _ _).add (.monomial _ _)
  have divided : p.div d = .ok q := by decide +kernel
  have dFinite : d.isNaN = false := rfl
  have pValue : p.value = C 2 * X ^ 2 := by
    rw [(monomial_of_representable _ (by decide)).2, ← C_mul_X_pow_eq_monomial]
    rfl
  have qValue : q.value = C 2 * X := by
    rw [(monomial_of_representable _ (by decide)).2]
    exact C_mul_X_eq_monomial.symm
  have dValue : d.value = X + C 9223372036854775807 := by
    rw [(add_finite dFinite).2.2, (monomial_of_representable _ (by decide)).2,
      (monomial_of_representable _ (by decide)).2]
    rfl
  have remainder : p.value - d.value * q.value = C (-2 * 9223372036854775807) * X := by
    rw [pValue, dValue, qValue, map_mul, map_neg]
    ring
  refine ⟨.monomial _ _, dReachable, rfl, dFinite, by decide, divided, rfl, ?_⟩
  rw [remainder, dValue, degree_C_mul_X (by norm_num), degree_X_add_C]
  exact lt_irrefl _

end ExactPoly.Poly
