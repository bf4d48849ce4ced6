import ExactPoly.Proofs.Division.Rounds
import ExactPoly.Proofs.Division.Step

namespace ExactPoly.Poly

open Polynomial Division

/-! The course of a long division.

`DivisionRun` lists the ways in which the loop can go on and end, in terms of
exact arithmetic, and counts the terms that are divided off.  It continues with what
fits.  A step that does not fit leaves NaN, whose degree is zero: below a divisor of
positive degree this looks like a remainder and ends the loop, and for a constant
divisor the degree is kept.
-/

inductive DivisionRun (divisor : Poly) (lead : Term) :
    Poly → List Term → Nat → Except Fault (List Term) → Prop where
  | finished {remaining : Poly} {quotient : List Term}
      (below : remaining.value.degree < divisor.value.degree) :
      DivisionRun divisor lead remaining quotient 0 (.ok quotient)
  | continued {remaining next : Poly} {q : Term} {quotient : List Term} {rounds : Nat}
      {outcome : Except Fault (List Term)}
      (reaches : divisor.value.degree ≤ remaining.value.degree)
      (step : Step divisor remaining q next) (fits : StepFits divisor.value remaining.value)
      (rest : DivisionRun divisor lead next (mergeTerm quotient q) rounds outcome) :
      DivisionRun divisor lead remaining quotient (rounds + 1) outcome
  | stopped {remaining next : Poly} {q : Term} {quotient : List Term}
      (reaches : divisor.value.degree ≤ remaining.value.degree)
      (step : Step divisor remaining q next) (overflows : ¬ StepFits divisor.value remaining.value)
      (positive : 0 < lead.exponent.val) :
      DivisionRun divisor lead remaining quotient 1 (.ok (mergeTerm quotient q))
  | faulted {remaining kept : Poly} {quotient : List Term}
      (reaches : divisor.value.degree ≤ remaining.value.degree)
      (overflows : ¬ StepFits divisor.value remaining.value) (constant : lead.exponent.val = 0) :
      DivisionRun divisor lead remaining quotient 0 (.error (.degreeKept kept))

variable {divisor remaining next p d r : Poly} {lead q : Term} {quotient : List Term}
  {rounds : Nat} {outcome : Except Fault (List Term)}

theorem countedLoop_below (divisorLeads : Leads lead divisor) (proper : Proper remaining.terms)
    (below : remaining.value.degree < divisor.value.degree) :
    countedLoop divisor lead remaining quotient = .ok (0, quotient) := by
  rw [countedLoop]
  cases leading : remaining.leading? with
  | none => rfl
  | some top =>
      have remainingLeads : Leads top remaining := ⟨proper, leading⟩
      rw [remainingLeads.degree_value, divisorLeads.degree_value, Nat.cast_lt] at below
      exact if_pos below

theorem exists_leads (divisorLeads : Leads lead divisor) (proper : Proper remaining.terms)
    (reaches : divisor.value.degree ≤ remaining.value.degree) :
    ∃ top, Leads top remaining ∧ lead.exponent.val ≤ top.exponent.val := by
  cases leading : remaining.leading? with
  | none =>
      have zero : remaining.value = 0 := by rw [value, leading?_eq_none_iff.mp leading, valueOf_nil]
      exact absurd zero (ne_zero_of_reaches divisorLeads.value_ne_zero reaches)
  | some top =>
      have remainingLeads : Leads top remaining := ⟨proper, leading⟩
      rw [remainingLeads.degree_value, divisorLeads.degree_value, Nat.cast_le] at reaches
      exact ⟨top, remainingLeads, reaches⟩

theorem exponent_lt_height (divisorLeads : Leads lead divisor) (proper : Proper remaining.terms)
    (reaches : divisor.value.degree ≤ remaining.value.degree) :
    lead.exponent.val < remaining.height := by
  obtain ⟨top, remainingLeads, topReaches⟩ := exists_leads divisorLeads proper reaches
  rw [remainingLeads.height_eq]
  exact Nat.lt_succ_of_le topReaches

theorem countedLoop_step (divisorLeads : Leads lead divisor) (proper : Proper remaining.terms)
    (reaches : divisor.value.degree ≤ remaining.value.degree) (quotient : List Term) :
    ∃ q next, Step divisor remaining q next ∧
      countedLoop divisor lead remaining quotient =
        if next.height < remaining.height then
          (countedLoop divisor lead next (mergeTerm quotient q)).map (Prod.map Nat.succ id)
        else .error (.degreeKept remaining) := by
  obtain ⟨top, remainingLeads, topReaches⟩ := exists_leads divisorLeads proper reaches
  obtain ⟨q, next, divided, reduced, step⟩ := step_exists divisorLeads remainingLeads topReaches
  refine ⟨q, next, step, ?_⟩
  conv_lhs => rw [countedLoop]
  simp only [remainingLeads.leading, if_neg (Nat.not_lt.mpr topReaches), divided, reduced]
  rfl

theorem Step.height_lt (divisorLeads : Leads lead divisor) (proper : Proper remaining.terms)
    (reaches : divisor.value.degree ≤ remaining.value.degree)
    (step : Step divisor remaining q next) (finite : next.isNaN = false) :
    next.height < remaining.height := by
  obtain ⟨top, remainingLeads, -⟩ := exists_leads divisorLeads proper reaches
  have lower := remainderAfter_degree_lt divisorLeads.value_ne_zero reaches
  rw [← step.remainder finite, remainingLeads.degree_value,
    ← height_le_iff (step.wellFormed.proper finite)] at lower
  rw [remainingLeads.height_eq]
  exact Nat.lt_succ_of_le lower

theorem countedLoop_nan_below (positive : 0 < lead.exponent.val) :
    countedLoop divisor lead nan quotient = .ok (0, quotient) := by
  rw [countedLoop]
  exact if_pos positive

theorem countedLoop_nan_constant (constant : lead.exponent.val = 0) :
    countedLoop divisor lead nan quotient = .error (.degreeKept nan) := by
  have leading : nan.leading? = some Term.nan := rfl
  have reaches : ¬ Term.nan.exponent.val < lead.exponent.val := by
    rw [constant]
    exact Nat.not_lt_zero _
  have divided : Term.nan.div lead = .ok Term.nan := rfl
  rw [countedLoop]
  simp only [leading, if_neg reaches, divided, reduce_nan, if_neg (Nat.lt_irrefl nan.height)]

/-- The loop ends as one of its runs does, and its count is that of the run's steps. -/
def FollowsRun (divisor : Poly) (lead : Term) (remaining : Poly) (quotient : List Term) : Prop :=
  ∃ rounds outcome, DivisionRun divisor lead remaining quotient rounds outcome ∧
    countedLoop divisor lead remaining quotient = outcome.map (Prod.mk rounds)

theorem followsRun_of_overflow (divisorLeads : Leads lead divisor)
    (proper : Proper remaining.terms) (reaches : divisor.value.degree ≤ remaining.value.degree)
    (overflows : ¬ StepFits divisor.value remaining.value) :
    FollowsRun divisor lead remaining quotient := by
  obtain ⟨q, next, step, unfolded⟩ := countedLoop_step divisorLeads proper reaches quotient
  have isNaN : next.isNaN = true := by
    rw [← Bool.not_eq_false]
    exact mt step.finite_iff.mp overflows
  obtain rfl := step.wellFormed.eq_nan isNaN
  rcases Nat.eq_zero_or_pos lead.exponent.val with constant | positive
  -- NaN has a smaller degree than a remainder of positive degree, so that the
  -- fault may come one step later.
  · rw [countedLoop_nan_constant constant] at unfolded
    split at unfolded
    · exact ⟨0, _, .faulted reaches overflows constant, unfolded⟩
    · exact ⟨0, _, .faulted reaches overflows constant, unfolded⟩
  · have lower : nan.height < remaining.height :=
      Nat.lt_of_le_of_lt positive (exponent_lt_height divisorLeads proper reaches)
    rw [if_pos lower, countedLoop_nan_below positive] at unfolded
    exact ⟨1, _, .stopped reaches step overflows positive, unfolded⟩

theorem countedLoop_run (divisorLeads : Leads lead divisor) (proper : Proper remaining.terms)
    (quotient : List Term) : FollowsRun divisor lead remaining quotient := by
  -- The height drops with every step that fits, and any other step is the last.
  induction height : remaining.height using Nat.strong_induction_on
    generalizing remaining quotient with
  | _ n ih =>
      by_cases below : remaining.value.degree < divisor.value.degree
      · exact ⟨0, _, .finished below, countedLoop_below divisorLeads proper below⟩
      · have reaches := not_lt.mp below
        by_cases fits : StepFits divisor.value remaining.value
        · obtain ⟨q, next, step, unfolded⟩ :=
            countedLoop_step divisorLeads proper reaches quotient
          have finite := step.finite_iff.mpr fits
          have lower := step.height_lt divisorLeads proper reaches finite
          obtain ⟨rounds, outcome, run, counted⟩ :=
            ih next.height (height ▸ lower) (step.wellFormed.proper finite) _ rfl
          refine ⟨rounds + 1, outcome, .continued reaches step fits run, ?_⟩
          rw [unfolded, if_pos lower, counted]
          cases outcome <;> rfl
        · exact followsRun_of_overflow divisorLeads proper reaches fits

theorem divisionLoop_run (divisorLeads : Leads lead divisor) (proper : Proper remaining.terms)
    (quotient : List Term) :
    ∃ rounds, DivisionRun divisor lead remaining quotient rounds
      (divisionLoop divisor lead remaining quotient) := by
  obtain ⟨rounds, outcome, run, counted⟩ := countedLoop_run divisorLeads proper quotient
  have same : divisionLoop divisor lead remaining quotient = outcome := by
    rw [← countedLoop_eq, counted]
    cases outcome <;> rfl
  exact ⟨rounds, same ▸ run⟩

/-- Each step lowers the height of what remains, which was above the exponent of the
divisor before it. -/
theorem DivisionRun.rounds_le (run : DivisionRun divisor lead remaining quotient rounds outcome)
    (divisorLeads : Leads lead divisor) (proper : Proper remaining.terms) :
    rounds ≤ remaining.height - lead.exponent.val := by
  induction run with
  | finished => exact Nat.zero_le _
  | continued reaches step fits rest ih =>
      have finite := step.finite_iff.mpr fits
      have fewer := ih (step.wellFormed.proper finite)
      have lower := step.height_lt divisorLeads proper reaches finite
      have above := exponent_lt_height divisorLeads proper reaches
      omega
  | stopped reaches =>
      have above := exponent_lt_height divisorLeads proper reaches
      omega
  | faulted => exact Nat.zero_le _

/-- The rounds that are counted in a division are the steps of its run. -/
theorem countedDiv_run (dLeads : Leads lead d) (proper : Proper p.terms)
    (counted : p.countedDiv d = .ok (rounds, r)) :
    ∃ results, DivisionRun d lead p [] rounds (.ok results) ∧ r = ofTerms results := by
  have finite : ¬ (p.isNaN || d.isNaN) := by
    rw [proper.isNaN_eq_false, dLeads.proper.isNaN_eq_false]
    exact Bool.false_ne_true
  rw [countedDiv, if_neg finite] at counted
  simp only [dLeads.leading] at counted
  obtain ⟨⟨found, results⟩, ended, same⟩ := map_ok_iff.mp counted
  obtain ⟨steps, outcome, run, loop⟩ := countedLoop_run dLeads proper []
  obtain ⟨terms, rfl, also⟩ := map_ok_iff.mp (loop.symm.trans ended)
  cases also
  cases same
  exact ⟨results, run, rfl⟩

/-- A division makes at most one step for each degree from that of the dividend down to
that of the divisor. -/
theorem countedDiv_rounds_le (dLeads : Leads lead d) (proper : Proper p.terms)
    (counted : p.countedDiv d = .ok (rounds, r)) :
    rounds ≤ p.degree.val + 1 - d.degree.val := by
  obtain ⟨results, run, -⟩ := countedDiv_run dLeads proper counted
  have bound := run.rounds_le dLeads proper
  have height := height_le_degree_succ p
  rw [dLeads.degree_eq]
  omega

end ExactPoly.Poly
