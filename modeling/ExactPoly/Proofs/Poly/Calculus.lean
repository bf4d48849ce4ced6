import ExactPoly.Proofs.Poly.Fault

namespace ExactPoly.Poly

open Polynomial

/-! Derivatives and antiderivatives of each other.

Both work term by term, and both are NaN exactly when a coefficient that they form
does not fit.  The coefficients that the second of two opposite steps forms are
stored ones, so it is exact as soon as the first is.
-/

variable {terms results : List Term} {p r : Poly} {constant : Coeff}

theorem derivative_isNaN_iff (proper : Proper p.terms) :
    p.derivative.isNaN = false ↔
      ∀ t ∈ p.terms, Representable (t.coeff.value * t.exponent.val) := by
  have kept : NaNFree ((p.terms.map Term.derivative).filter (fun t => !t.isZero)) ↔
      NaNFree (p.terms.map Term.derivative) :=
    ⟨nanFree_filter_nonzero, fun free t member => free t (List.mem_of_mem_filter member)⟩
  rw [derivative_of_finite proper.isNaN_eq_false, ofTerms_isNaN_eq_false_iff, kept, NaNFree,
    List.forall_mem_map]
  refine forall₂_congr fun t member => ?_
  rw [Term.derivative_coeff, Coeff.mul_eq (proper.nanFree t member) (Term.exponent_finite _),
    Coeff.ofRat_ne_nan_iff, Term.value_exponent]

theorem derivative_isNaN_iff_coeff (proper : Proper p.terms) :
    p.derivative.isNaN = false ↔
      ∀ e, Representable ((Polynomial.derivative p.value).coeff e) := by
  have stored := proper.forall_coeff_iff (P := fun e x => Representable (x * e))
    (fun e => by rw [zero_mul]; decide)
  rw [derivative_isNaN_iff proper, ← stored]
  constructor
  · intro fits e
    rw [coeff_derivative, ← Nat.cast_add_one]
    exact fits (e + 1)
  · intro fits e
    cases e with
    | zero =>
        rw [Nat.cast_zero, mul_zero]
        decide
    | succ e =>
        have next := fits e
        rwa [coeff_derivative, ← Nat.cast_add_one] at next

theorem nanFree_antiderivatives_iff (proper : Proper terms)
    (integrated : List.Forall₂ (fun t u => t.antiderivative = .ok u) terms results) :
    NaNFree results ↔ ∀ t ∈ terms, Representable (t.coeff.value / (t.exponent.val + 1)) := by
  induction integrated with
  | nil => exact iff_of_true nanFree_nil (List.forall_mem_nil _)
  | cons first _ ih =>
      obtain ⟨⟨finite, nonzero⟩, -, restProper⟩ := proper_cons.mp proper
      obtain ⟨e, -, rfl⟩ := Term.antiderivative_eq finite nonzero first
      rw [nanFree_cons, List.forall_mem_cons, ih restProper, Term.make_coeff,
        Coeff.ofRat_ne_nan_iff]

/-- The constant term is new, so merging it forms no sum. -/
theorem antiderivative_isNaN_iff (proper : Proper p.terms) (constantFinite : constant ≠ .nan)
    (integrated : p.antiderivative constant = .ok r) :
    r.isNaN = false ↔ ∀ t ∈ p.terms, Representable (t.coeff.value / (t.exponent.val + 1)) := by
  rw [antiderivative_of_finite proper.isNaN_eq_false constantFinite] at integrated
  obtain ⟨results, traversed, rfl⟩ := map_ok_iff.mp integrated
  have each := mapM_ok_iff.mp traversed
  rw [ofTerms_isNaN_eq_false_iff, ← nanFree_antiderivatives_iff proper each]
  refine ⟨fun free => (mergeTerm_nanFree free).1, fun free => ?_⟩
  rw [mergeTerm_nanFree_iff (proper_antiderivatives proper each free)
    (by rwa [Term.make_coeff]), Term.constant_exponent, valueOf_antiderivatives proper free each,
    primitive_coeff_zero, zero_add]
  exact Coeff.representable_value _

theorem antiderivative_isNaN_iff_coeff (proper : Proper p.terms)
    (constantFinite : constant ≠ .nan) (integrated : p.antiderivative constant = .ok r) :
    r.isNaN = false ↔ ∀ e, Representable ((primitive p.value).coeff e) := by
  have stored := proper.forall_coeff_iff (P := fun e x => Representable (x / (e + 1)))
    (fun e => by rw [zero_div]; decide)
  rw [antiderivative_isNaN_iff proper constantFinite integrated, ← stored]
  constructor
  · intro fits e
    cases e with
    | zero =>
        rw [primitive_coeff_zero]
        decide
    | succ e =>
        rw [primitive_coeff_succ]
        exact fits e
  · intro fits e
    have next := fits (e + 1)
    rwa [primitive_coeff_succ] at next

theorem derivative_of_antiderivative (proper : Proper p.terms)
    (integrated : p.antiderivative constant = .ok r) (finite : r.isNaN = false) :
    r.derivative = p := by
  have rWellFormed := antiderivative_wellFormed (.inr proper) integrated
  obtain ⟨-, -, value⟩ := antiderivative_finite (.inr proper) integrated finite
  have restored : Polynomial.derivative r.value = p.value := by
    rw [value, derivative_add, derivative_primitive, derivative_C, add_zero]
  have derived : r.derivative.isNaN = false := by
    rw [derivative_isNaN_iff_coeff (rWellFormed.proper finite), restored]
    exact proper.representable_coeff
  apply value_injective (derivative_wellFormed rWellFormed) (.inr proper) derived
    proper.isNaN_eq_false
  rw [(derivative_finite derived).2, restored]

/-- The terms of `p` in which `x` occurs, and the given constant term. -/
def withConstant (p : Poly) (constant : Coeff) : Poly :=
  ⟨p.terms.filter (fun t => decide (0 < t.exponent.val)) ++
    if constant = 0 then [] else [Term.make constant 0]⟩

theorem valueOf_filter_positive (terms : List Term) :
    valueOf (terms.filter (fun t => decide (0 < t.exponent.val))) =
      valueOf terms - C ((valueOf terms).coeff 0) := by
  induction terms with
  | nil => simp
  | cons t rest ih =>
      rw [valueOf_cons, coeff_add, C_add]
      by_cases positive : 0 < t.exponent.val
      · have noConstant : t.value.coeff 0 = 0 := by
          rw [Term.value, coeff_monomial, if_neg (Nat.ne_of_gt positive)]
        rw [List.filter_cons_of_pos (by simpa using positive), valueOf_cons, ih, noConstant, C_0]
        ring
      · have exponent : t.exponent.val = 0 := Nat.eq_zero_of_not_pos positive
        have constant : t.value = C (t.value.coeff 0) := by
          rw [Term.value, exponent, coeff_monomial_same, monomial_zero_left]
        rw [List.filter_cons_of_neg (by simpa using exponent), ih, ← constant]
        ring

theorem value_withConstant (p : Poly) (constant : Coeff) :
    (p.withConstant constant).value = p.value - C (p.value.coeff 0) + C constant.value := by
  rw [value, withConstant, valueOf_append, valueOf_filter_positive]
  congr 1
  by_cases zero : constant = 0
  · rw [if_pos zero, zero, Coeff.value_zero, C_0, valueOf_nil]
  · rw [if_neg zero, valueOf_cons, valueOf_nil, add_zero, Term.value_make]
    rfl

theorem proper_withConstant (proper : Proper p.terms) (constantFinite : constant ≠ .nan) :
    Proper (p.withConstant constant).terms := by
  have variablePart : Proper (p.terms.filter (fun t => decide (0 < t.exponent.val))) :=
    ⟨fun t member => proper.nanFree t (List.mem_of_mem_filter member),
      fun t member => proper.nonzero t (List.mem_of_mem_filter member),
      proper.descending.filter _⟩
  refine proper_append.mpr ⟨variablePart, ?_⟩
  by_cases zero : constant = 0
  · rw [if_pos zero]
    exact ⟨proper_nil, fun _ _ => List.forall_mem_nil _⟩
  · rw [if_neg zero]
    refine ⟨proper_cons.mpr ⟨by simpa using ⟨constantFinite, zero⟩, List.forall_mem_nil _,
      proper_nil⟩, fun t member => List.forall_mem_singleton.mpr ?_⟩
    rw [Term.constant_exponent]
    simpa using (List.mem_filter.mp member).2

/-- No exponent of a derivative is the greatest one. -/
theorem derivative_below_limit (wellFormed : p.WellFormed) : ¬ p.derivative.AtLimit := by
  intro limit
  obtain ⟨finite, t, member, exponent⟩ := limit
  have proper := (derivative_wellFormed wellFormed).proper finite
  have found := coeff_valueOf_of_mem proper.descending member
  rw [← value, (derivative_finite finite).2, coeff_derivative,
    coeff_value_of_large p (by omega), zero_mul] at found
  exact proper.nonzero t member ((Coeff.value_eq_zero_iff (proper.nanFree t member)).mp found.symm)

theorem antiderivative_of_derivative (proper : Proper p.terms) (constantFinite : constant ≠ .nan)
    (finite : p.derivative.isNaN = false) :
    p.derivative.antiderivative constant = .ok (p.withConstant constant) := by
  have dWellFormed := derivative_wellFormed (.inr proper)
  have restored : primitive p.derivative.value = p.value - C (p.value.coeff 0) := by
    rw [(derivative_finite finite).2, primitive_derivative]
  have total : ¬ ∃ fault, p.derivative.antiderivative constant = .error fault := by
    rw [antiderivative_error_iff dWellFormed constantFinite]
    exact derivative_below_limit (.inr proper)
  cases integrated : p.derivative.antiderivative constant with
  | error fault => exact absurd ⟨fault, integrated⟩ total
  | ok r =>
      have rFinite : r.isNaN = false := by
        rw [antiderivative_isNaN_iff_coeff (dWellFormed.proper finite) constantFinite integrated,
          restored]
        intro e
        cases e with
        | zero =>
            rw [coeff_sub, coeff_C_zero, sub_self]
            decide
        | succ e =>
            rw [coeff_sub, coeff_C_succ, sub_zero]
            exact proper.representable_coeff (e + 1)
      have target := proper_withConstant proper constantFinite
      refine congrArg Except.ok (value_injective (antiderivative_wellFormed dWellFormed integrated)
        (.inr target) rFinite target.isNaN_eq_false ?_)
      rw [(antiderivative_finite dWellFormed integrated rFinite).2.2, restored, value_withConstant]

/-- Both operations are NaN exactly through a coefficient that they form, and each undoes the
other, up to the constant term, as soon as the first of the two fits. -/
theorem calculus_inverse (reachable : Reachable p) (finite : p.isNaN = false)
    (constantFinite : constant ≠ .nan) :
    (p.derivative = nan ↔ ∃ t ∈ p.terms, ¬ Representable (t.coeff.value * t.exponent.val)) ∧
      ((∀ t ∈ p.terms, t.exponent.val ≠ 4294967295) → ∃ r, p.antiderivative constant = .ok r ∧
        (r = nan ↔ ∃ t ∈ p.terms, ¬ Representable (t.coeff.value / (t.exponent.val + 1))) ∧
        (r ≠ nan → r.derivative = p)) ∧
      (p.derivative ≠ nan →
        p.derivative.antiderivative constant = .ok (p.withConstant constant) ∧
          p.withConstant constant ≠ nan) := by
  have wellFormed := reachable.wellFormed
  have proper := wellFormed.proper finite
  have dWellFormed := derivative_wellFormed wellFormed
  refine ⟨dWellFormed.eq_nan_iff (derivative_isNaN_iff proper), fun belowLimit => ?_,
    fun notNaN => ?_⟩
  · have total : ¬ ∃ fault, p.antiderivative constant = .error fault := by
      rw [antiderivative_error_iff wellFormed constantFinite]
      intro limit
      obtain ⟨-, t, member, exponent⟩ := limit
      exact belowLimit t member exponent
    cases integrated : p.antiderivative constant with
    | error fault => exact absurd ⟨fault, integrated⟩ total
    | ok r =>
        have rWellFormed := antiderivative_wellFormed wellFormed integrated
        refine ⟨r, rfl, ?_, fun notNaN => ?_⟩
        · exact rWellFormed.eq_nan_iff (antiderivative_isNaN_iff proper constantFinite integrated)
        · exact derivative_of_antiderivative proper integrated (rWellFormed.ne_nan_iff.mp notNaN)
  · have target := proper_withConstant proper constantFinite
    exact ⟨antiderivative_of_derivative proper constantFinite (dWellFormed.ne_nan_iff.mp notNaN),
      (WellFormed.ne_nan_iff (.inr target)).mpr target.isNaN_eq_false⟩

/-- The exponent is the last below the limit, and the coefficients fit with little to spare. -/
theorem near_limits_calculus_inverse :
    let top := Term.make (.ofRatio ⟨4294967295, 2⟩) ⟨4294967294, by decide⟩
    let p := (ofTerm top).add (monomial 5 0)
    Reachable p ∧ p.isNaN = false ∧ Coeff.ofInt (-7) ≠ .nan ∧
      (∀ t ∈ p.terms, t.exponent.val ≠ 4294967295) ∧ p.derivative ≠ nan ∧
      (∃ r, p.antiderivative (.ofInt (-7)) = .ok r ∧ r ≠ nan ∧ r.derivative = p) ∧
      p.derivative.antiderivative (.ofInt (-7)) = .ok (p.withConstant (.ofInt (-7))) := by
  intro top p
  have reachable : Reachable p := (Reachable.ofTerm _).add (.monomial _ _)
  have belowLimit : ∀ t ∈ p.terms, t.exponent.val ≠ 4294967295 := by decide +kernel
  have notNaN : p.derivative ≠ nan := by decide +kernel
  have integrable : (p.antiderivative (.ofInt (-7))).map isNaN = .ok false := by decide +kernel
  obtain ⟨-, antiderivative, derivative⟩ :=
    calculus_inverse reachable rfl (show Coeff.ofInt (-7) ≠ .nan by decide)
  obtain ⟨r, integrated, -, restored⟩ := antiderivative belowLimit
  have rNotNaN : r ≠ nan := by
    intro isNaN
    rw [integrated, isNaN] at integrable
    contradiction
  exact ⟨reachable, rfl, by decide, belowLimit, notNaN,
    ⟨r, integrated, rNotNaN, restored rNotNaN⟩, (derivative notNaN).1⟩

end ExactPoly.Poly
