import ExactPoly.Proofs.Division.Quotient

namespace ExactPoly

open Polynomial

/-! Divisions that stay in range.

When everything that the school method computes fits, the loop on stored polynomials
takes its steps one for one.  The terms of the quotient come with falling exponents,
so each of them is stored at the end and none meets another.
-/

namespace Division

variable {d p r s : ℚ[X]}

/-- What is left of `p` after some steps of its exact division by `d`. -/
inductive Remainder (d p : ℚ[X]) : ℚ[X] → Prop where
  | start : Remainder d p p
  | step {r : ℚ[X]} (earlier : Remainder d p r) (reaches : d.degree ≤ r.degree) :
      Remainder d p (remainderAfter d r)

/-- Every step that the exact division makes fits. -/
def StaysInRange (d p : ℚ[X]) : Prop :=
  ∀ r, Remainder d p r → d.degree ≤ r.degree → StepFits d r

theorem Remainder.eq_or_later (remainder : Remainder d p r) :
    r = p ∨ d.degree ≤ p.degree ∧ Remainder d (remainderAfter d p) r := by
  induction remainder with
  | start => exact .inl rfl
  | step _ reaches ih =>
      rcases ih with rfl | ⟨reachesFirst, later⟩
      · exact .inr ⟨reaches, .start⟩
      · exact .inr ⟨reachesFirst, later.step reaches⟩

theorem Remainder.prepend (reaches : d.degree ≤ p.degree)
    (remainder : Remainder d (remainderAfter d p) r) : Remainder d p r := by
  induction remainder with
  | start => exact .step .start reaches
  | step _ laterReaches ih => exact ih.step laterReaches

theorem staysInRange_iff_step (reaches : d.degree ≤ p.degree) :
    StaysInRange d p ↔ StepFits d p ∧ StaysInRange d (remainderAfter d p) := by
  constructor
  · intro stays
    exact ⟨stays p .start reaches, fun r remainder => stays r (remainder.prepend reaches)⟩
  · intro parts r remainder rReaches
    obtain ⟨fits, stays⟩ := parts
    rcases remainder.eq_or_later with rfl | ⟨-, later⟩
    · exact fits
    · exact stays r later rReaches

theorem staysInRange_of_below (below : p.degree < d.degree) : StaysInRange d p := by
  intro r remainder reaches
  rcases remainder.eq_or_later with rfl | ⟨firstReaches, -⟩
  · exact absurd reaches (not_le.mpr below)
  · exact absurd firstReaches (not_le.mpr below)

theorem StaysInRange.not_cutShort (stays : StaysInRange d p) : ¬ CutShort d p := by
  intro cut
  induction cut with
  | here reaches _ overflows => exact overflows (stays _ .start reaches)
  | later reaches _ _ ih => exact ih ((staysInRange_iff_step reaches).mp stays).2

end Division

namespace Poly

open Division

variable {p d divisor remaining next r : Poly} {lead top q : Term} {terms quotient : List Term}
  {rounds : Nat} {outcome : Except Fault (List Term)}

theorem mergeTerm_below (below : ∀ t ∈ terms, q.exponent.val < t.exponent.val)
    (nonzero : q.coeff ≠ 0) : mergeTerm terms q = terms ++ [q] := by
  rw [mergeTerm, if_neg (mt Term.isZero_iff.mp nonzero)]
  induction terms with
  | nil => rfl
  | cons t rest ih =>
      obtain ⟨lower, restBelow⟩ := List.forall_mem_cons.mp below
      rw [mergeNonzero, if_pos lower, ih restBelow, List.cons_append]

/-- The quotient term of a step that fits brings the divisor up to what remains. -/
theorem Step.degree_eq (step : Step divisor remaining q next) (divisorLeads : Leads lead divisor)
    (reaches : divisor.value.degree ≤ remaining.value.degree)
    (fits : StepFits divisor.value remaining.value) :
    q.coeff ≠ .nan ∧ q.coeff ≠ 0 ∧
      remaining.value.degree = ((q.exponent.val + lead.exponent.val : ℕ) : WithBot ℕ) := by
  have finite : q.coeff ≠ .nan := by
    rw [step.coeff]
    exact Coeff.ofRat_ne_nan_iff.mpr fits.quotient
  have divisorNonzero := divisorLeads.value_ne_zero
  have remainingNonzero := ne_zero_of_reaches divisorNonzero reaches
  have quotientNonzero :
      remaining.value.leadingCoeff / divisor.value.leadingCoeff ≠ 0 :=
    div_ne_zero (leadingCoeff_ne_zero.mpr remainingNonzero)
      (leadingCoeff_ne_zero.mpr divisorNonzero)
  have coeffValue : q.coeff.value = remaining.value.leadingCoeff / divisor.value.leadingCoeff := by
    rw [step.coeff, Coeff.value_ofRat fits.quotient]
  have nonzero : q.coeff ≠ 0 := by
    intro zero
    rw [zero, Coeff.value_zero] at coeffValue
    exact quotientNonzero coeffValue.symm
  have exponent : q.exponent.val = remaining.value.natDegree - divisor.value.natDegree := by
    have sameValue := congrArg natDegree (step.quotient finite)
    rwa [Term.value, coeffValue, quotientTerm, natDegree_monomial_eq _ quotientNonzero,
      natDegree_monomial_eq _ quotientNonzero] at sameValue
  have covered := natDegree_le_natDegree reaches
  rw [degree_eq_natDegree remainingNonzero, exponent, ← divisorLeads.natDegree_value,
    Nat.sub_add_cancel covered]
  exact ⟨finite, nonzero, rfl⟩

/-- A run that stays in range returns terms other than NaN: those collected so far lie above
all that are still to come. -/
theorem DivisionRun.returns_of_inRange
    (run : DivisionRun divisor lead remaining quotient rounds outcome)
    (divisorLeads : Leads lead divisor)
    (stays : StaysInRange divisor.value remaining.value) (settled : NaNFree quotient)
    (above : ∀ t ∈ quotient,
      remaining.value.degree < ((t.exponent.val + lead.exponent.val : ℕ) : WithBot ℕ)) :
    ∃ results, outcome = .ok results ∧ NaNFree results := by
  induction run with
  | @finished remaining quotient below => exact ⟨quotient, rfl, settled⟩
  | @continued remaining next q quotient rounds outcome reaches step fits rest ih =>
      obtain ⟨finite, nonzero, top⟩ := step.degree_eq divisorLeads reaches fits
      have nextValue := step.remainder (step.finite_iff.mpr fits)
      have falls : next.value.degree < remaining.value.degree := by
        rw [nextValue]
        exact remainderAfter_degree_lt divisorLeads.value_ne_zero reaches
      have lower : ∀ t ∈ quotient, q.exponent.val < t.exponent.val := by
        intro t member
        have higher := above t member
        rw [top, Nat.cast_lt] at higher
        omega
      have stored := mergeTerm_below lower nonzero
      rw [stored] at ih
      apply ih
      · rw [nextValue]
        exact ((staysInRange_iff_step reaches).mp stays).2
      · exact nanFree_append.mpr ⟨settled, nanFree_cons.mpr ⟨finite, nanFree_nil⟩⟩
      · refine List.forall_mem_append.mpr ⟨fun t member => falls.trans (above t member), ?_⟩
        exact List.forall_mem_singleton.mpr (top ▸ falls)
  | stopped reaches _ overflows => exact absurd (stays _ .start reaches) overflows
  | faulted reaches overflows => exact absurd (stays _ .start reaches) overflows

theorem div_of_inRange (dLeads : Leads lead d) (pProper : Proper p.terms)
    (stays : StaysInRange d.value p.value) :
    ∃ q, p.div d = .ok q ∧ q.isNaN = false ∧ q.value = p.value / d.value := by
  obtain ⟨_, run⟩ := divisionLoop_run dLeads pProper []
  obtain ⟨results, returned, free⟩ :=
    run.returns_of_inRange dLeads stays nanFree_nil (List.forall_mem_nil _)
  have finite : (ofTerms results).isNaN = false := ofTerms_isNaN_eq_false_iff.mpr free
  refine ⟨ofTerms results, ?_, finite, ?_⟩
  · rw [div_eq_loop dLeads pProper.isNaN_eq_false, returned]
    rfl
  · have exactness := (run.degree_lt_iff returned free).2
    rw [valueOf_nil, sub_zero, ← (value_ofTerms finite).2,
      ← eq_div_iff dLeads.value_ne_zero] at exactness
    exact exactness.mpr stays.not_cutShort

/-- A division whose exact steps all fit returns the Euclidean quotient, in at most one round
for each degree; so dividing a product by a factor gives the other factor back. -/
theorem div_complete_in_range (pReachable : Reachable p) (dReachable : Reachable d)
    (pFinite : p.isNaN = false) (dFinite : d.isNaN = false) (nonzero : d.terms ≠ []) :
    (StaysInRange d.value p.value → ∃ rounds q, p.div d = .ok q ∧
      p.countedDiv d = .ok (rounds, q) ∧
      (d.degree.val ≤ p.degree.val → rounds ≤ p.degree.val - d.degree.val + 1) ∧
      q.isNaN = false ∧ q.value = p.value / d.value) ∧
    (∀ r, p.mul d = .ok r → r.isNaN = false → StaysInRange d.value r.value →
      r.div d = .ok p) := by
  obtain ⟨lead, dLeads⟩ := dReachable.wellFormed.exists_leads dFinite nonzero
  have pWellFormed := pReachable.wellFormed
  constructor
  · intro stays
    have proper := pWellFormed.proper pFinite
    obtain ⟨q, divided, finite, value⟩ := div_of_inRange dLeads proper stays
    obtain ⟨rounds, counted⟩ := exists_countedDiv divided
    refine ⟨rounds, q, divided, counted, fun reaches => ?_, finite, value⟩
    have bound := countedDiv_rounds_le dLeads proper counted
    omega
  · intro r multiplied rFinite stays
    have rProper := (mul_wellFormed multiplied).proper rFinite
    obtain ⟨q, divided, finite, value⟩ := div_of_inRange dLeads rProper stays
    have same : q.value = p.value := by
      rw [value, (mul_finite multiplied rFinite).2.2,
        mul_div_cancel_right₀ _ dLeads.value_ne_zero]
    rw [divided, value_injective (div_wellFormed divided) pWellFormed finite pFinite same]

/-- A step on stored polynomials that leaves no NaN is one that fits. -/
theorem staysInRange_of_step (divisorLeads : Leads lead divisor)
    (remainingLeads : Leads top remaining) (reaches : lead.exponent.val ≤ top.exponent.val)
    (divided : top.div lead = .ok q) (reduced : reduce remaining divisor q = .ok next)
    (finite : next.isNaN = false) (stays : StaysInRange divisor.value next.value) :
    StaysInRange divisor.value remaining.value := by
  obtain ⟨found, after, dividedAlso, reducedAlso, step⟩ :=
    step_exists divisorLeads remainingLeads reaches
  obtain rfl : q = found := Except.ok.inj (divided.symm.trans dividedAlso)
  obtain rfl : next = after := Except.ok.inj (reduced.symm.trans reducedAlso)
  have exactReaches : divisor.value.degree ≤ remaining.value.degree := by
    rw [divisorLeads.degree_value, remainingLeads.degree_value, Nat.cast_le]
    exact reaches
  rw [staysInRange_iff_step exactReaches, ← step.remainder finite]
  exact ⟨step.finite_iff.mp finite, stays⟩

theorem staysInRange_of_height (divisorLeads : Leads lead divisor)
    (remainingProper : Proper remaining.terms) (lower : remaining.height ≤ lead.exponent.val) :
    StaysInRange divisor.value remaining.value := by
  apply staysInRange_of_below
  rw [divisorLeads.degree_value, ← height_le_iff remainingProper]
  exact lower

/-- Dividing `x^2` by `2*x+1` takes both rounds that the bound allows, through fractions. -/
theorem square_by_line_in_range :
    let p := monomial 1 ⟨2, by decide⟩
    let d := (monomial 2 1).add (monomial 1 0)
    let r := (monomial 2 ⟨3, by decide⟩).add p
    Reachable p ∧ Reachable d ∧ StaysInRange d.value p.value ∧ StaysInRange d.value r.value ∧
      p.mul d = .ok r ∧ r.div d = .ok p ∧ ∃ q, p.div d = .ok q ∧
        p.countedDiv d = .ok (2, q) ∧ q.isNaN = false ∧ q.value = p.value / d.value := by
  intro p d r
  let first := ofTerm (Term.make (Coeff.ofRatio ⟨-1, 2⟩) 1)
  let last := ofTerm (Term.make (Coeff.ofRatio ⟨1, 4⟩) 0)
  have pReachable : Reachable p := .monomial _ _
  have dReachable : Reachable d := (Reachable.monomial _ _).add (.monomial _ _)
  have dLeads : Leads (Term.make (Coeff.ofInt 2) 1) d :=
    ⟨dReachable.wellFormed.proper (by decide +kernel), by decide +kernel⟩
  have pLeads : Leads (Term.make 1 ⟨2, by decide⟩) p :=
    ⟨pReachable.wellFormed.proper (by decide +kernel), by decide +kernel⟩
  have firstLeads : Leads (Term.make (Coeff.ofRatio ⟨-1, 2⟩) 1) first :=
    ⟨(ofTerm_wellFormed _).proper (by decide +kernel), by decide +kernel⟩
  have rLeads : Leads (Term.make (Coeff.ofInt 2) ⟨3, by decide⟩) r :=
    ⟨((Reachable.monomial _ _).add pReachable).wellFormed.proper (by decide +kernel),
      by decide +kernel⟩
  have lastStays : StaysInRange d.value last.value :=
    staysInRange_of_height dLeads ((ofTerm_wellFormed _).proper (by decide +kernel))
      (by decide +kernel)
  have firstStays : StaysInRange d.value first.value :=
    staysInRange_of_step dLeads firstLeads (q := Term.make (Coeff.ofRatio ⟨-1, 4⟩) 0)
      (by decide +kernel) (by decide +kernel) (by decide +kernel) (by decide +kernel) lastStays
  have pStays : StaysInRange d.value p.value :=
    staysInRange_of_step dLeads pLeads (q := Term.make (Coeff.ofRatio ⟨1, 2⟩) 1)
      (by decide +kernel) (by decide +kernel) (by decide +kernel) (by decide +kernel) firstStays
  have rStays : StaysInRange d.value r.value :=
    staysInRange_of_step dLeads rLeads (q := Term.make 1 ⟨2, by decide⟩)
      (by decide +kernel) (by decide +kernel) (by decide +kernel) (by decide +kernel)
      (staysInRange_of_height dLeads proper_nil (Nat.zero_le _))
  have multiplied : p.mul d = .ok r := by decide +kernel
  obtain ⟨quotient, product⟩ := div_complete_in_range pReachable dReachable
    (by decide +kernel) (by decide +kernel) (by decide +kernel)
  obtain ⟨rounds, q, divided, counted, bounded, finite, value⟩ := quotient pStays
  have two : rounds = 2 := by
    have computed : (p.countedDiv d).map Prod.fst = .ok 2 := by decide +kernel
    rw [counted] at computed
    exact Except.ok.inj computed
  subst two
  exact ⟨pReachable, dReachable, pStays, rStays, multiplied,
    product r multiplied (by decide +kernel) rStays, q, divided, counted, finite, value⟩

end Poly

end ExactPoly
