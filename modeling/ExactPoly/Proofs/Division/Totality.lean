import Mathlib.Algebra.Polynomial.EraseLead
import ExactPoly.Proofs.Division.Quotient

namespace ExactPoly

open Polynomial

/-! When long division returns.

A divisor of positive degree always gives a result.  A constant divisor takes
the coefficients of the dividend one by one, and the division faults at the
first one that it cannot divide or subtract.
-/

namespace Division

variable {c : ℚ} {r : ℚ[X]}

/-- What a division by the constant `c` asks of a coefficient `a`: the quotient
fits, and so does the negation that subtracting `a` goes through. -/
structure CoeffFits (c a : ℚ) : Prop where
  quotient : Representable (a / c)
  negation : a.num ≠ -9223372036854775808

theorem coeffFits_zero (c : ℚ) : CoeffFits c 0 := by
  refine ⟨?_, by decide⟩
  rw [zero_div]
  decide

theorem mul_quotientTerm_C (nonzero : c ≠ 0) :
    C c * quotientTerm (C c) r = Polynomial.monomial r.natDegree r.leadingCoeff := by
  rw [quotientTerm, natDegree_C, Nat.sub_zero, leadingCoeff_C, C_mul_monomial,
    mul_div_cancel₀ _ nonzero]

theorem remainderAfter_C (nonzero : c ≠ 0) : remainderAfter (C c) r = r.eraseLead := by
  rw [remainderAfter, mul_quotientTerm_C nonzero, self_sub_monomial_natDegree_leadingCoeff]

/-- For a constant divisor all other parts of a step fit on their own. -/
theorem stepFits_C_iff (nonzero : c ≠ 0) (representable : ∀ e, Representable (r.coeff e)) :
    StepFits (C c) r ↔ CoeffFits c r.leadingCoeff := by
  constructor
  · intro step
    have quotient := step.quotient
    have negation := step.negation r.natDegree
    rw [leadingCoeff_C] at quotient
    rw [mul_quotientTerm_C nonzero, coeff_monomial_same] at negation
    exact ⟨quotient, negation⟩
  · intro leading
    refine ⟨?_, fun e => ?_, fun e => ?_, fun e => ?_⟩
    · rw [leadingCoeff_C]
      exact leading.quotient
    · rw [mul_quotientTerm_C nonzero, coeff_monomial]
      split
      · exact representable r.natDegree
      · decide
    · rw [mul_quotientTerm_C nonzero, coeff_monomial]
      split
      · exact leading.negation
      · decide
    · rw [remainderAfter_C nonzero, eraseLead_coeff]
      split
      · decide
      · exact representable e

theorem forall_coeffFits_iff (c : ℚ) (r : ℚ[X]) :
    (∀ e, CoeffFits c (r.coeff e)) ↔
      CoeffFits c r.leadingCoeff ∧ ∀ e, CoeffFits c (r.eraseLead.coeff e) := by
  constructor
  · refine fun fits => ⟨fits r.natDegree, fun e => ?_⟩
    rw [eraseLead_coeff]
    split
    · exact coeffFits_zero c
    · exact fits e
  · intro fits e
    obtain ⟨leading, others⟩ := fits
    have other := others e
    rw [eraseLead_coeff] at other
    split at other
    · subst e
      exact leading
    · exact other

end Division

namespace Poly

open Division

variable {p d divisor remaining : Poly} {lead top : Term} {quotient : List Term}
  {rounds : Nat} {outcome : Except Fault (List Term)}

theorem Leads.value_of_constant (leads : Leads top p) (constant : top.exponent.val = 0) :
    p.value = C top.coeff.value := by
  have degree := leads.degree_value
  rw [constant, Nat.cast_zero] at degree
  rw [eq_C_of_degree_eq_zero degree, ← leads.leadingCoeff_value, leadingCoeff,
    leads.natDegree_value, constant]

theorem Leads.terms_of_constant (leads : Leads top p) (constant : top.exponent.val = 0) :
    p.terms = [top] := by
  obtain ⟨rest, form⟩ := leading?_eq_some_iff.mp leads.leading
  have proper := leads.proper
  rw [form] at proper ⊢
  cases rest with
  | nil => rfl
  | cons u rest =>
      have below := (proper_cons.mp proper).2.1 u (List.mem_cons_self ..)
      rw [constant] at below
      exact absurd below (Nat.not_lt_zero _)

/-- A run returns below a divisor of positive degree, and below a constant as
long as all coefficients fit. -/
theorem DivisionRun.returns_iff (run : DivisionRun divisor lead remaining quotient rounds outcome)
    (divisorLeads : Leads lead divisor) (proper : Proper remaining.terms) :
    (∃ results, outcome = .ok results) ↔
      0 < lead.exponent.val ∨ ∀ e, CoeffFits lead.coeff.value (remaining.value.coeff e) := by
  have leadNonzero := mt (Coeff.value_eq_zero_iff divisorLeads.finite).mp divisorLeads.nonzero
  induction run with
  | finished below =>
      refine iff_of_true ⟨_, rfl⟩ ((Nat.eq_zero_or_pos lead.exponent.val).symm.imp_right ?_)
      intro constant e
      rw [divisorLeads.degree_value, constant, degree_lt_iff_coeff_zero] at below
      rw [below e (Nat.zero_le e)]
      exact coeffFits_zero _
  | @continued remaining next q quotient rounds outcome reaches step fits rest ih =>
      have finite := step.finite_iff.mpr fits
      refine (ih (step.wellFormed.proper finite)).trans (or_congr_right' fun notPositive => ?_)
      have divisorValue := divisorLeads.value_of_constant (Nat.eq_zero_of_not_pos notPositive)
      have leadingFits := (stepFits_C_iff leadNonzero proper.representable_coeff).mp
        (divisorValue ▸ fits)
      rw [step.remainder finite, divisorValue, remainderAfter_C leadNonzero,
        forall_coeffFits_iff _ remaining.value]
      exact (and_iff_right leadingFits).symm
  | stopped _ _ _ positive => exact iff_of_true ⟨_, rfl⟩ (.inl positive)
  | @faulted remaining kept quotient reaches overflows constant =>
      have representable : ∀ e, Representable (remaining.value.coeff e) :=
        proper.representable_coeff
      rw [divisorLeads.value_of_constant constant,
        stepFits_C_iff leadNonzero representable] at overflows
      refine iff_of_false (fun ⟨_, returned⟩ => nomatch returned) ?_
      intro allowed
      rcases allowed with positive | fits
      · exact Nat.ne_of_gt positive constant
      · exact overflows (fits _)

theorem DivisionRun.fault_eq {fault : Fault}
    (run : DivisionRun divisor lead remaining quotient rounds outcome)
    (faulted : outcome = .error fault) :
    ∃ kept, fault = .degreeKept kept := by
  induction run with
  | finished => contradiction
  | continued _ _ _ _ ih => exact ih faulted
  | stopped => contradiction
  | faulted => exact ⟨_, (Except.error.inj faulted).symm⟩

/-- A constant divisor, and a coefficient of the dividend that it cannot handle. -/
def Obstructed (p d : Poly) : Prop :=
  p.isNaN = false ∧ ∃ c : Term, d.terms = [c] ∧ c.coeff ≠ .nan ∧ c.exponent.val = 0 ∧
    ∃ t ∈ p.terms, ¬ CoeffFits c.coeff.value t.coeff.value

theorem not_obstructed_iff (dLeads : Leads lead d) (proper : Proper p.terms) :
    ¬ Obstructed p d ↔
      0 < lead.exponent.val ∨ ∀ e, CoeffFits lead.coeff.value (p.value.coeff e) := by
  have stored := proper.forall_coeff_iff (P := fun _ => CoeffFits lead.coeff.value)
    (fun _ => coeffFits_zero _)
  rw [value, stored]
  constructor
  · intro free
    refine (Nat.eq_zero_or_pos lead.exponent.val).symm.imp_right fun constant t member => ?_
    by_contra unfit
    exact free ⟨proper.isNaN_eq_false, lead, dLeads.terms_of_constant constant,
      dLeads.finite, constant, t, member, unfit⟩
  · intro free obstructed
    obtain ⟨-, c, single, -, constant, t, member, unfit⟩ := obstructed
    have same : c = lead := by
      have leading := dLeads.leading
      rw [leading?, single] at leading
      exact Option.some.inj leading
    subst c
    rcases free with positive | fits
    · exact Nat.ne_of_gt positive constant
    · exact unfit (fits t member)

theorem div_of_undefined (undefined : p.isNaN = true ∨ d.isNaN = true ∨ d.terms = []) :
    p.div d = .ok nan := by
  unfold div
  split
  · rfl
  · rename_i finite
    have empty := (or_assoc.mpr undefined).resolve_left (mt Bool.or_eq_true_iff.mpr finite)
    rw [leading?_eq_none_iff.mpr empty]

theorem Obstructed.defined (obstructed : Obstructed p d) :
    ¬ (p.isNaN = true ∨ d.isNaN = true ∨ d.terms = []) := by
  obtain ⟨pFinite, c, single, finite, -⟩ := obstructed
  intro undefined
  rcases undefined with pNaN | dNaN | empty
  · exact Bool.eq_false_iff.mp pFinite pNaN
  · rw [isNaN_iff, single] at dNaN
    exact dNaN (nanFree_cons.mpr ⟨finite, nanFree_nil⟩)
  · exact List.cons_ne_nil _ _ (single.symm.trans empty)

/-- Division returns unless a constant divisor meets a coefficient that does not
fit, and then it faults because a step keeps the degree. -/
theorem div_returns_iff (pReachable : Reachable p) (dReachable : Reachable d) :
    ((∃ q, p.div d = .ok q) ↔ ¬ Obstructed p d) ∧
      ∀ fault, p.div d = .error fault → ∃ kept, fault = .degreeKept kept := by
  by_cases undefined : p.isNaN = true ∨ d.isNaN = true ∨ d.terms = []
  · rw [div_of_undefined undefined]
    exact ⟨iff_of_true ⟨_, rfl⟩ (fun obstructed => obstructed.defined undefined),
      fun _ faulted => nomatch faulted⟩
  · obtain ⟨pFinite, dFinite, nonzero⟩ :
        p.isNaN = false ∧ d.isNaN = false ∧ d.terms ≠ [] := by simpa using undefined
    obtain ⟨lead, dLeads⟩ := dReachable.wellFormed.exists_leads dFinite nonzero
    have proper := pReachable.wellFormed.proper pFinite
    obtain ⟨_, run⟩ := divisionLoop_run dLeads proper []
    rw [div_eq_loop dLeads pFinite, not_obstructed_iff dLeads proper,
      ← run.returns_iff dLeads proper]
    cases outcome : divisionLoop d lead p [] with
    | ok results => exact ⟨iff_of_true ⟨_, rfl⟩ ⟨_, rfl⟩, fun _ faulted => nomatch faulted⟩
    | error fault =>
        refine ⟨iff_of_false (fun ⟨_, returned⟩ => nomatch returned)
          (fun ⟨_, returned⟩ => nomatch returned), fun other faulted => ?_⟩
        obtain rfl : fault = other := Except.error.inj faulted
        exact run.fault_eq outcome

/-- The product in the first step overflows here, but a divisor with two terms cannot
obstruct. -/
theorem overflowing_div_returns :
    let p := monomial 2 ⟨2, by decide⟩
    let d := (monomial 1 1).add (monomial 9223372036854775807 0)
    Reachable p ∧ Reachable d ∧ ((∃ q, p.div d = .ok q) ↔ ¬ Obstructed p d) ∧
      (∀ fault, p.div d = .error fault → ∃ kept, fault = .degreeKept kept) ∧
      ¬ Obstructed p d ∧ ∃ q, p.div d = .ok q := by
  intro p d
  have pReachable : Reachable p := .monomial _ _
  have dReachable : Reachable d := (Reachable.monomial _ _).add (.monomial _ _)
  obtain ⟨returns, faults⟩ := div_returns_iff pReachable dReachable
  have free : ¬ Obstructed p d := by
    intro obstructed
    obtain ⟨-, c, single, -⟩ := obstructed
    have two : d.terms.length = 2 := by decide +kernel
    rw [single, List.length_singleton] at two
    contradiction
  exact ⟨pReachable, dReachable, returns, faults, free, returns.mpr free⟩

/-- Half of `1/9223372036854775807` does not fit, and dividing by two faults. -/
theorem halving_least_fraction_faults :
    let p := ofTerm (Term.make (Coeff.ofRatio ⟨1, 9223372036854775807⟩) 0)
    let d := monomial 2 0
    Reachable p ∧ Reachable d ∧ p.div d = .error (.degreeKept p) ∧ ¬ ∃ q, p.div d = .ok q := by
  intro p d
  have faulted : p.div d = .error (.degreeKept p) := by decide +kernel
  refine ⟨.ofTerm _, .monomial _ _, faulted, fun ⟨q, returned⟩ => ?_⟩
  rw [faulted] at returned
  contradiction

end Poly

end ExactPoly
