import ExactPoly.Proofs.Poly.Operations

namespace ExactPoly

/-! Terms as polynomials of one term.

Operations on polynomials merge terms and look for NaN at other places than operations
on terms do.  On single terms they agree, with the same faults.
-/

namespace Term

variable {t u anti : Term}

theorem eq_zero (coeff : t.coeff = 0) : t = 0 :=
  eq_of_parts coeff (t.exponent_eq_zero (Or.inl coeff))

theorem zero_or_nan_or_regular (t : Term) : t = 0 ∨ t = nan ∨ t.coeff ≠ 0 ∧ t.coeff ≠ .nan := by
  by_cases zero : t.coeff = 0
  · exact .inl (eq_zero zero)
  · by_cases isNaN : t.coeff = .nan
    · exact .inr (.inl (eq_nan isNaN))
    · exact .inr (.inr ⟨zero, isNaN⟩)

/-- The exponents agree, or one of the terms is zero or NaN. -/
def Addable (t u : Term) : Prop :=
  t.exponent = u.exponent ∨ (t.coeff = 0 ∨ t.coeff = .nan) ∨ u.coeff = 0 ∨ u.coeff = .nan

instance (t u : Term) : Decidable (Addable t u) :=
  inferInstanceAs (Decidable (_ ∨ _))

theorem neg_coeff_ne_zero (nonzero : t.coeff ≠ 0) : t.neg.coeff ≠ 0 := by
  by_cases finite : t.neg.coeff = .nan
  · rw [finite]
    exact Coeff.zero_ne_nan.symm
  · exact (neg_nonzero finite nonzero).1

theorem Addable.neg (addable : Addable t u) : Addable t u.neg := by
  rcases u.zero_or_nan_or_regular with rfl | rfl | ⟨nonzero, finite⟩
  · exact .inr (.inr (.inl rfl))
  · exact .inr (.inr (.inr rfl))
  · by_cases lost : u.neg.coeff = .nan
    · exact .inr (.inr (.inr lost))
    · rw [Addable, (neg_nonzero lost nonzero).2]
      have regular : ¬ (u.coeff = 0 ∨ u.coeff = .nan) := not_or.mpr ⟨nonzero, finite⟩
      exact addable.imp_right (Or.imp_right fun trivial => absurd trivial regular)

theorem mul_of_nan (isNaN : t.coeff = .nan ∨ u.coeff = .nan) : t.mul u = .ok nan :=
  if_pos (by simpa using isNaN)

theorem mul_of_zero (tFinite : t.coeff ≠ .nan) (uFinite : u.coeff ≠ .nan)
    (zero : t.coeff = 0 ∨ u.coeff = 0) : t.mul u = .ok 0 := by
  have product : t.coeff * u.coeff = 0 := by
    have values : t.coeff.value * u.coeff.value = 0 :=
      mul_eq_zero.mpr (zero.imp (congrArg Coeff.value) (congrArg Coeff.value))
    rw [Coeff.mul_eq tFinite uFinite, values, Coeff.ofRat_zero]
  rw [mul, if_neg (by simp [tFinite, uFinite]), product]
  rfl

theorem add_of_nan (isNaN : t.coeff = .nan ∨ u.coeff = .nan) : t.add u = .ok nan :=
  if_pos (by simpa using isNaN)

theorem add_of_equal (tFinite : t.coeff ≠ .nan) (uFinite : u.coeff ≠ .nan) (tNonzero : t.coeff ≠ 0)
    (uNonzero : u.coeff ≠ 0) (equal : t.exponent = u.exponent) :
    t.add u = .ok (make (t.coeff + u.coeff) t.exponent) := by
  rw [add, if_neg (by simp [tFinite, uFinite]), if_neg (by simpa using tNonzero),
    if_neg (by simpa using uNonzero), if_pos equal]

theorem antiderivative_coeff_ne_zero (nonzero : t.coeff ≠ 0)
    (integrated : t.antiderivative = .ok anti) : anti.coeff ≠ 0 := by
  by_cases finite : anti.coeff = .nan
  · rw [finite]
    exact Coeff.zero_ne_nan.symm
  · exact (antiderivative_ok integrated nonzero finite).1

end Term

namespace Poly

variable {t u : Term}

theorem mergeTerm_nil (nonzero : t.coeff ≠ 0) : mergeTerm [] t = [t] := by
  rw [mergeTerm, if_neg (mt Term.isZero_iff.mp nonzero), mergeNonzero]

theorem ofTerm_isNaN (isNaN : t.coeff = .nan) : (ofTerm t).isNaN = true := by
  rw [Term.eq_nan isNaN]
  rfl

theorem ofTerm_neg (t : Term) : ofTerm t.neg = (ofTerm t).neg := by
  rcases t.zero_or_nan_or_regular with rfl | rfl | ⟨nonzero, finite⟩
  · rfl
  · rfl
  · rw [neg_of_finite (ofTerm_of_finite finite).1, ofTerm_terms finite nonzero, ofTerm,
      mergeTerm_nil (Term.neg_coeff_ne_zero nonzero), List.map_singleton]

theorem products_singles (t u : Term) : products [t] [u] = (t.mul u).map ([·]) := by
  rw [products, List.mapM_cons, List.mapM_cons]
  cases t.mul u <;> rfl

/-- Terms of one exponent are merged into their sum. -/
theorem mergeTerm_single (nonzero : u.coeff ≠ 0) (equal : t.exponent = u.exponent) :
    mergeTerm [t] u = mergeTerm [] (Term.make (t.coeff + u.coeff) t.exponent) := by
  have level : ¬ u.exponent.val < t.exponent.val := by
    rw [equal]
    exact Nat.lt_irrefl _
  rw [mergeTerm, if_neg (mt Term.isZero_iff.mp nonzero), mergeNonzero, if_neg level, if_pos equal,
    mergeTerm, equal]
  rfl

theorem ofTerm_mul (t u : Term) : (t.mul u).map ofTerm = (ofTerm t).mul (ofTerm u) := by
  by_cases isNaN : t.coeff = .nan ∨ u.coeff = .nan
  · rw [Term.mul_of_nan isNaN, mul_of_isNaN (isNaN.imp ofTerm_isNaN ofTerm_isNaN)]
    rfl
  · obtain ⟨tFinite, uFinite⟩ := not_or.mp isNaN
    rw [mul_of_finite (ofTerm_of_finite tFinite).1 (ofTerm_of_finite uFinite).1]
    rcases t.zero_or_nan_or_regular with rfl | rfl | ⟨tNonzero, -⟩
    · rw [Term.mul_of_zero tFinite uFinite (.inl rfl)]
      rfl
    · contradiction
    · rcases u.zero_or_nan_or_regular with rfl | rfl | ⟨uNonzero, -⟩
      · rw [Term.mul_of_zero tFinite uFinite (.inr rfl), ofTerm_terms tFinite tNonzero]
        rfl
      · contradiction
      · rw [ofTerm_terms tFinite tNonzero, ofTerm_terms uFinite uNonzero, products_singles]
        cases t.mul u <;> rfl

theorem ofTerm_add (addable : Term.Addable t u) :
    (t.add u).map ofTerm = .ok ((ofTerm t).add (ofTerm u)) := by
  by_cases isNaN : t.coeff = .nan ∨ u.coeff = .nan
  · rw [Term.add_of_nan isNaN, add_of_isNaN (isNaN.imp ofTerm_isNaN ofTerm_isNaN)]
    rfl
  · obtain ⟨tFinite, uFinite⟩ := not_or.mp isNaN
    rw [add_of_finite (ofTerm_of_finite tFinite).1 (ofTerm_of_finite uFinite).1]
    rcases t.zero_or_nan_or_regular with rfl | rfl | ⟨tNonzero, -⟩
    · have sum : Term.add 0 u = .ok u := if_neg (by simpa using uFinite)
      rw [sum]
      rcases u.zero_or_nan_or_regular with rfl | rfl | ⟨uNonzero, -⟩
      · rfl
      · contradiction
      · rw [ofTerm_terms uFinite uNonzero]
        rfl
    · contradiction
    · rcases u.zero_or_nan_or_regular with rfl | rfl | ⟨uNonzero, -⟩
      · have sum : t.add 0 = .ok t := by
          rw [Term.add, if_neg (by simpa using tFinite), if_neg (by simpa using tNonzero)]
          rfl
        rw [sum, ofTerm_terms tFinite tNonzero, Except.map, ofTerm, mergeTerm_nil tNonzero]
        rfl
      · contradiction
      · have equal : t.exponent = u.exponent :=
          addable.resolve_right (by simp [tNonzero, tFinite, uNonzero, uFinite])
        rw [Term.add_of_equal tFinite uFinite tNonzero uNonzero equal,
          ofTerm_terms tFinite tNonzero, ofTerm_terms uFinite uNonzero, mergeAll_cons,
          mergeTerm_single uNonzero equal]
        rfl

theorem ofTerm_sub (addable : Term.Addable t u) :
    (t.sub u).map ofTerm = .ok ((ofTerm t).sub (ofTerm u)) := by
  rw [Term.sub, sub, ← ofTerm_neg]
  exact ofTerm_add addable.neg

theorem ofTerm_derivative (t : Term) : ofTerm t.derivative = (ofTerm t).derivative := by
  rcases t.zero_or_nan_or_regular with rfl | rfl | ⟨nonzero, finite⟩
  · rfl
  · rfl
  · rw [derivative_of_finite (ofTerm_of_finite finite).1, ofTerm_terms finite nonzero,
      List.map_singleton]
    cases vanishes : t.derivative.isZero with
    | true =>
      rw [Term.eq_zero (Term.isZero_iff.mp vanishes)]
      rfl
    | false =>
      rw [ofTerm, mergeTerm_nil (Term.isZero_eq_false_iff.mp vanishes),
        List.filter_cons_of_pos (by simp [vanishes])]
      rfl

theorem ofTerm_antiderivative (t : Term) :
    t.antiderivative.map ofTerm = (ofTerm t).antiderivative 0 := by
  rcases t.zero_or_nan_or_regular with rfl | rfl | ⟨nonzero, finite⟩
  · rfl
  · rfl
  · rw [antiderivative_of_finite (ofTerm_of_finite finite).1 Coeff.zero_ne_nan,
      ofTerm_terms finite nonzero, List.mapM_cons]
    cases integrated : t.antiderivative with
    | error fault => rfl
    | ok anti =>
        have kept := Term.antiderivative_coeff_ne_zero nonzero integrated
        rw [Except.map, ofTerm, mergeTerm_nil kept]
        rfl

/-- An operation on terms and the operation on their polynomials have the same result or the
same fault. -/
theorem single_term_operations (t u : Term) :
    ofTerm t.neg = (ofTerm t).neg ∧
      (t.mul u).map ofTerm = (ofTerm t).mul (ofTerm u) ∧
      (t.Addable u →
        (t.add u).map ofTerm = .ok ((ofTerm t).add (ofTerm u)) ∧
          (t.sub u).map ofTerm = .ok ((ofTerm t).sub (ofTerm u))) ∧
      ofTerm t.derivative = (ofTerm t).derivative ∧
      t.antiderivative.map ofTerm = (ofTerm t).antiderivative 0 :=
  ⟨ofTerm_neg t, ofTerm_mul t u, fun addable => ⟨ofTerm_add addable, ofTerm_sub addable⟩,
    ofTerm_derivative t, ofTerm_antiderivative t⟩

/-- Terms of the greatest exponent whose coefficients are the least and the greatest integer:
the sum fits, the difference is lost, and there is no antiderivative. -/
theorem extreme_terms_agree :
    let e : Exponent := ⟨4294967295, by decide⟩
    let t := Term.make (.ofInt (-9223372036854775808)) e
    let u := Term.make (.ofInt 9223372036854775807) e
    t.Addable u ∧
      (t.add u).map ofTerm = .ok ((ofTerm t).add (ofTerm u)) ∧
      (ofTerm t).add (ofTerm u) = monomial (-1) e ∧
      (t.sub u).map ofTerm = .ok nan ∧
      t.antiderivative.map ofTerm = .error (.antiderivativeExponent t) := by
  intro e t u
  have addable : t.Addable u := .inl rfl
  have ⟨_, _, sums, _, _⟩ := single_term_operations t u
  have lost : (ofTerm t).sub (ofTerm u) = nan := by decide +kernel
  exact ⟨addable, (sums addable).1, by decide +kernel, lost ▸ (sums addable).2, by decide +kernel⟩

end Poly

end ExactPoly
