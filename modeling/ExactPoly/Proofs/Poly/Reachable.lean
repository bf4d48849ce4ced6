import ExactPoly.Proofs.Poly.Operations

namespace ExactPoly.Poly

open Polynomial

/-! The polynomials that any history of operations can produce.

All of them have the stored form of `WellFormed`, and every polynomial of that
form is produced by some history.  Equality of stored polynomials is therefore
equality of values, with all NaN polynomials equal to each other.
-/

/-- Obtained by finitely many constructions, readings and operations. -/
inductive Reachable : Poly → Prop where
  | zero : Reachable 0
  | nan : Reachable nan
  | ofTerm (t : Term) : Reachable (ofTerm t)
  | monomial (coeff : Int) (exponent : Exponent) : Reachable (monomial coeff exponent)
  | read {text : List Char} {p : Poly} (accepted : Poly.read text = .ok p) : Reachable p
  | neg {p : Poly} (operand : Reachable p) : Reachable p.neg
  | add {p q : Poly} (left : Reachable p) (right : Reachable q) : Reachable (p.add q)
  | sub {p q : Poly} (left : Reachable p) (right : Reachable q) : Reachable (p.sub q)
  | mul {p q r : Poly} (left : Reachable p) (right : Reachable q)
      (multiplied : p.mul q = .ok r) : Reachable r
  | div {p q r : Poly} (left : Reachable p) (right : Reachable q)
      (divided : p.div q = .ok r) : Reachable r
  | derivative {p : Poly} (operand : Reachable p) : Reachable p.derivative
  | antiderivative {p r : Poly} (constant : Coeff) (operand : Reachable p)
      (integrated : p.antiderivative constant = .ok r) : Reachable r

variable {p q r : Poly} {terms results : List Term} {text segment : List Char}

theorem Reachable.reduce {t : Term} (left : Reachable p) (right : Reachable q)
    (reduced : reduce p q t = .ok r) : Reachable r := by
  obtain ⟨product, multiplied, rfl⟩ := map_ok_iff.mp reduced
  exact left.sub (right.mul (.ofTerm t) multiplied)

/-- Each step of the loop merges one term into the quotient and nothing else. -/
theorem proper_divisionLoop {divisor remaining : Poly} {lead : Term} {quotient : List Term}
    (settled : NaNFree quotient → Proper quotient)
    (ended : divisionLoop divisor lead remaining quotient = .ok results)
    (free : NaNFree results) : Proper results := by
  fun_induction divisionLoop divisor lead remaining quotient with
  | case1 => cases ended; exact settled free
  | case2 => cases ended; exact settled free
  | case3 => contradiction
  | case4 => contradiction
  | case5 remaining quotient top _ _ q _ next _ _ ih => exact ih (proper_mergeTerm settled) ended
  | case6 => contradiction

theorem div_of_isNaN (isNaN : p.isNaN = true ∨ q.isNaN = true) : p.div q = .ok nan :=
  if_pos (Bool.or_eq_true_iff.mpr isNaN)

theorem div_wellFormed (divided : p.div q = .ok r) : r.WellFormed := by
  unfold div at divided
  split at divided
  · cases divided
    exact .inl rfl
  · split at divided
    · cases divided
      exact .inl rfl
    · obtain ⟨terms, ended, rfl⟩ := map_ok_iff.mp divided
      exact wellFormed_ofTerms (proper_divisionLoop (fun _ => proper_nil) ended)

theorem proper_readSegment {sign : Option (Char × Nat)}
    (settled : NaNFree terms → Proper terms)
    (accepted : readSegment sign segment terms = .ok results) :
    NaNFree results → Proper results := by
  unfold readSegment at accepted
  split at accepted
  · contradiction
  · cases accepted
    exact settled
  · obtain ⟨t, -, merged⟩ := bind_ok_iff.mp accepted
    cases merged
    exact proper_mergeTerm settled

theorem proper_readFrom {sign : Option (Char × Nat)} {offset : Nat}
    (settled : NaNFree terms → Proper terms)
    (accepted : readFrom sign segment offset terms text = .ok results) :
    NaNFree results → Proper results := by
  induction text generalizing sign segment offset terms with
  | nil => exact proper_readSegment settled accepted
  | cons c rest ih =>
      unfold readFrom at accepted
      split at accepted
      · obtain ⟨merged, read, continued⟩ := bind_ok_iff.mp accepted
        exact ih (proper_readSegment settled read) continued
      · exact ih settled accepted

theorem read_wellFormed (accepted : read text = .ok p) : p.WellFormed := by
  unfold read at accepted
  split at accepted
  · contradiction
  · obtain ⟨terms, scanned, rfl⟩ := map_ok_iff.mp accepted
    exact wellFormed_ofTerms (proper_readFrom (fun _ => proper_nil) scanned)

theorem ofTerm_wellFormed (t : Term) : (ofTerm t).WellFormed :=
  wellFormed_ofTerms (proper_mergeTerm (fun _ => proper_nil))

theorem Reachable.wellFormed (reachable : Reachable p) : p.WellFormed := by
  induction reachable with
  | zero => exact .inr proper_nil
  | nan => exact .inl rfl
  | ofTerm t => exact ofTerm_wellFormed t
  | monomial coeff exponent => exact ofTerm_wellFormed _
  | read accepted => exact read_wellFormed accepted
  | neg _ wellFormed => exact neg_wellFormed wellFormed
  | add _ _ left _ => exact add_wellFormed left
  | sub _ _ left _ => exact sub_wellFormed left
  | mul _ _ multiplied => exact mul_wellFormed multiplied
  | div _ _ divided => exact div_wellFormed divided
  | derivative _ wellFormed => exact derivative_wellFormed wellFormed
  | antiderivative constant _ integrated wellFormed =>
      exact antiderivative_wellFormed wellFormed integrated

/-- The stored form is exact: a proper sequence is the sum of its terms. -/
theorem Proper.reachable (proper : Proper terms) : Reachable ⟨terms⟩ := by
  induction terms with
  | nil => exact .zero
  | cons t rest ih =>
      obtain ⟨⟨finite, nonzero⟩, below, restProper⟩ := proper_cons.mp proper
      have restFinite : (Poly.mk rest).isNaN = false := restProper.isNaN_eq_false
      have whole : (Poly.mk (t :: rest)).isNaN = false := proper.isNaN_eq_false
      obtain ⟨termFinite, termValue⟩ := ofTerm_of_finite finite
      have sumValue : (Poly.mk (t :: rest)).value = (ofTerm t).value + (Poly.mk rest).value := by
        rw [termValue]
        exact valueOf_cons t rest
      have sumFinite : ((ofTerm t).add ⟨rest⟩).isNaN = false := by
        rw [add_isNaN_iff (ofTerm_wellFormed t) (.inr restProper) termFinite restFinite]
        intro e
        rw [← coeff_add, ← sumValue]
        exact proper.representable_coeff e
      -- Both sides are well formed, so it is enough to compare their values.
      have same : (ofTerm t).add ⟨rest⟩ = ⟨t :: rest⟩ := by
        apply value_injective (add_wellFormed (ofTerm_wellFormed t)) (.inr proper) sumFinite whole
        rw [(add_finite sumFinite).2.2, sumValue]
      rw [← same]
      exact (Reachable.ofTerm t).add (ih restProper)

theorem reachable_iff_wellFormed : Reachable p ↔ p.WellFormed := by
  refine ⟨Reachable.wellFormed, fun wellFormed => ?_⟩
  rcases wellFormed with rfl | proper
  · exact .nan
  · exact proper.reachable

theorem WellFormed.terms_form (wellFormed : p.WellFormed) :
    p.terms = [Term.nan] ∨
      (∀ t ∈ p.terms, ∃ a : Fraction, t.coeff = .finite a ∧ a.num ≠ 0 ∧ 0 < a.den ∧
        a.num.natAbs.Coprime a.den) ∧
      p.terms.Pairwise (fun t u => u.exponent.val < t.exponent.val) := by
  rcases wellFormed with rfl | proper
  · exact .inl rfl
  · refine .inr ⟨fun t member => ?_, proper.descending⟩
    have finite := proper.nanFree t member
    obtain ⟨a, coeff⟩ := Coeff.exists_fraction finite
    refine ⟨a, coeff, fun zero => proper.nonzero t member ?_, a.den_pos, a.coprime⟩
    rw [← Coeff.value_eq_zero_iff finite, coeff]
    exact Fraction.value_eq_zero_iff.mpr zero

theorem eq_iff_value_eq (pWellFormed : p.WellFormed) (qWellFormed : q.WellFormed) :
    p = q ↔ (p.isNaN = true ∧ q.isNaN = true) ∨
      (p.isNaN = false ∧ q.isNaN = false ∧ p.value = q.value) := by
  constructor
  · intro same
    subst q
    cases finite : p.isNaN with
    | true => exact .inl ⟨rfl, rfl⟩
    | false => exact .inr ⟨rfl, rfl, rfl⟩
  · intro same
    rcases same with ⟨pNaN, qNaN⟩ | ⟨pFinite, qFinite, same⟩
    · rw [pWellFormed.eq_nan pNaN, qWellFormed.eq_nan qNaN]
    · exact value_injective pWellFormed qWellFormed pFinite qFinite same

/-- Results of equal values are equal as soon as both or neither of them is NaN. -/
theorem eq_iff_isNaN (pWellFormed : p.WellFormed) (qWellFormed : q.WellFormed)
    (sameValue : p.isNaN = false → q.isNaN = false → p.value = q.value) :
    p = q ↔ (p.isNaN = false ↔ q.isNaN = false) := by
  refine ⟨fun same => same ▸ Iff.rfl, fun together => ?_⟩
  cases pFinite : p.isNaN with
  | false =>
      have qFinite := together.mp pFinite
      exact value_injective pWellFormed qWellFormed pFinite qFinite (sameValue pFinite qFinite)
  | true =>
      have qNaN : q.isNaN = true := by
        rw [← Bool.not_eq_false, ← together, pFinite]
        decide
      rw [pWellFormed.eq_nan pFinite, qWellFormed.eq_nan qNaN]

/-- Every history yields a canonical polynomial, also in the middle of a
division, and stored polynomials are equal exactly when their values are. -/
theorem reachable_form_and_equality (pReachable : Reachable p) (qReachable : Reachable q) :
    p.isCanonical = true ∧
      (∀ t next, reduce p q t = .ok next → next.isCanonical = true) ∧
      (p.terms = [Term.nan] ∨
        (∀ t ∈ p.terms, ∃ a : Fraction, t.coeff = .finite a ∧ a.num ≠ 0 ∧ 0 < a.den ∧
          a.num.natAbs.Coprime a.den) ∧
        p.terms.Pairwise (fun t u => u.exponent.val < t.exponent.val)) ∧
      (p = q ↔ (p.isNaN = true ∧ q.isNaN = true) ∨
        (p.isNaN = false ∧ q.isNaN = false ∧ p.value = q.value)) := by
  have pWellFormed := pReachable.wellFormed
  refine ⟨(isCanonical_iff p).mpr pWellFormed.canonical, fun t next reduced => ?_,
    pWellFormed.terms_form, eq_iff_value_eq pWellFormed qReachable.wellFormed⟩
  exact (isCanonical_iff next).mpr (pReachable.reduce qReachable reduced).wellFormed.canonical

theorem reachable_overflow_eq_nan :
    Reachable ((monomial 9223372036854775807 1).add (monomial 1 1)) ∧ Reachable nan ∧
      (monomial 9223372036854775807 1).add (monomial 1 1) = nan := by
  have overflow : Reachable ((monomial 9223372036854775807 1).add (monomial 1 1)) :=
    (Reachable.monomial _ _).add (.monomial _ _)
  exact ⟨overflow, .nan,
    (reachable_form_and_equality overflow .nan).2.2.2.mpr (.inl ⟨by decide, rfl⟩)⟩

end ExactPoly.Poly
