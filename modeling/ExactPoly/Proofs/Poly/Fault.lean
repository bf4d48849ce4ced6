import ExactPoly.Proofs.Division.Totality

namespace ExactPoly

/-! When operations on polynomials fault.

The coefficient of a term is formed before its exponent, so only a product that
fits can fault.  Products and antiderivatives fault through an exponent, and a
division only by keeping the degree.
-/

theorem Exponent.ofNat?_eq_none_iff {n : Nat} : ofNat? n = none ↔ 4294967295 < n := by
  rw [ofNat?]
  split
  · exact iff_of_false (Option.some_ne_none _) (Nat.not_lt.mpr ‹_›)
  · exact iff_of_true rfl (Nat.lt_of_not_le ‹_›)

namespace Term

variable {t u : Term} {c : Coeff} {exponent? : Option Exponent} {fault cause : Fault}

theorem ofParts_error_iff :
    ofParts c exponent? cause = .error fault ↔
      fault = cause ∧ c ≠ 0 ∧ c ≠ .nan ∧ exponent? = none := by
  unfold ofParts
  split
  · rename_i trivial
    refine iff_of_false (fun failed => nomatch failed) ?_
    rintro ⟨-, nonzero, finite, -⟩
    simp [nonzero, finite] at trivial
  · rename_i kept
    obtain ⟨nonzero, finite⟩ : c ≠ 0 ∧ c ≠ .nan := by simpa using kept
    cases exponent? with
    | some exponent =>
        exact iff_of_false (fun failed => nomatch failed) (fun none => nomatch none.2.2.2)
    | none =>
        rw [Except.error.injEq]
        exact ⟨fun same => ⟨same.symm, nonzero, finite, rfl⟩, fun same => same.1.symm⟩

theorem mul_error_iff (tFinite : t.coeff ≠ .nan) (uFinite : u.coeff ≠ .nan)
    (tNonzero : t.coeff ≠ 0) (uNonzero : u.coeff ≠ 0) :
    t.mul u = .error fault ↔ fault = .productExponent t u ∧
      Representable (t.coeff.value * u.coeff.value) ∧
      4294967295 < t.exponent.val + u.exponent.val := by
  have notNaN : ¬ (t.isNaN || u.isNaN) = true := by simp [tFinite, uFinite]
  have product := Coeff.mul_eq tFinite uFinite
  have nonzero : t.coeff * u.coeff ≠ .nan → t.coeff * u.coeff ≠ 0 := by
    intro finite zero
    have vanish := (Coeff.mul_finite finite).2.2
    rw [zero, Coeff.value_zero, zero_eq_mul, Coeff.value_eq_zero_iff tFinite,
      Coeff.value_eq_zero_iff uFinite] at vanish
    exact vanish.elim tNonzero uNonzero
  rw [mul, if_neg notNaN, ofParts_error_iff, Exponent.add?, Exponent.ofNat?_eq_none_iff,
    ← Coeff.ofRat_ne_nan_iff, ← product]
  exact and_congr_right' ⟨And.right, fun fits => ⟨nonzero fits.1, fits⟩⟩

theorem antiderivative_error_iff (finite : t.coeff ≠ .nan) (nonzero : t.coeff ≠ 0) :
    t.antiderivative = .error fault ↔
      fault = .antiderivativeExponent t ∧ t.exponent.val = 4294967295 := by
  have nontrivial : ¬ (t.isNaN || t.isZero) = true := by simp [finite, nonzero]
  have atLimit : t.exponent.succ? = none ↔ t.exponent.val = 4294967295 := by
    have bounded := t.exponent.val_le
    rw [Exponent.succ?, Exponent.ofNat?_eq_none_iff]
    omega
  rw [antiderivative, if_neg nontrivial, ← atLimit]
  cases t.exponent.succ? with
  | some exponent => simp only [reduceCtorEq, and_false]
  | none =>
      rw [Except.error.injEq]
      exact ⟨fun same => ⟨same.symm, rfl⟩, fun same => same.1.symm⟩

end Term

namespace Poly

variable {p q d : Poly} {left right : List Term} {constant : Coeff} {fault : Fault}

/-- Two terms have a product that fits, with an exponent that does not. -/
def ProductOverflow (p q : Poly) : Prop :=
  p.isNaN = false ∧ q.isNaN = false ∧ ∃ t ∈ p.terms, ∃ u ∈ q.terms,
    Representable (t.coeff.value * u.coeff.value) ∧ 4294967295 < t.exponent.val + u.exponent.val

instance (p q : Poly) : Decidable (ProductOverflow p q) :=
  inferInstanceAs (Decidable (_ ∧ _ ∧ _))

/-- A term has the greatest exponent. -/
def AtLimit (p : Poly) : Prop :=
  p.isNaN = false ∧ ∃ t ∈ p.terms, t.exponent.val = 4294967295

instance (p : Poly) : Decidable (AtLimit p) :=
  inferInstanceAs (Decidable (_ ∧ _))

theorem products_error_iff :
    products left right = .error fault ↔
      left.mapM (fun t => right.mapM t.mul) = .error fault := by
  refine bind_error_iff.trans (or_iff_left ?_)
  rintro ⟨rows, -, done⟩
  contradiction

theorem products_fail_iff :
    (∃ fault, products left right = .error fault) ↔
      ∃ t ∈ left, ∃ u ∈ right, ∃ fault, t.mul u = .error fault := by
  simp only [products_error_iff, mapM_error_iff]

theorem mul_error (failed : p.mul q = .error fault) :
    p.isNaN = false ∧ q.isNaN = false ∧ products p.terms q.terms = .error fault := by
  by_cases isNaN : p.isNaN = true ∨ q.isNaN = true
  · rw [mul_of_isNaN isNaN] at failed
    contradiction
  · obtain ⟨pFinite, qFinite⟩ : p.isNaN = false ∧ q.isNaN = false := by simpa using isNaN
    rw [mul_of_finite pFinite qFinite, map_error_iff] at failed
    exact ⟨pFinite, qFinite, failed⟩

theorem mul_error_iff (pWellFormed : p.WellFormed) (qWellFormed : q.WellFormed) :
    (∃ fault, p.mul q = .error fault) ↔ ProductOverflow p q := by
  have overflows : p.isNaN = false → q.isNaN = false →
      ((∃ fault, products p.terms q.terms = .error fault) ↔ ∃ t ∈ p.terms, ∃ u ∈ q.terms,
        Representable (t.coeff.value * u.coeff.value) ∧
          4294967295 < t.exponent.val + u.exponent.val) := by
    intro pFinite qFinite
    have left := pWellFormed.proper pFinite
    have right := qWellFormed.proper qFinite
    rw [products_fail_iff]
    refine exists_congr fun t => and_congr_right fun tMember =>
      exists_congr fun u => and_congr_right fun uMember => ?_
    simp only [Term.mul_error_iff (left.nanFree t tMember) (right.nanFree u uMember)
      (left.nonzero t tMember) (right.nonzero u uMember), exists_eq_left]
  constructor
  · rintro ⟨fault, failed⟩
    obtain ⟨pFinite, qFinite, formed⟩ := mul_error failed
    exact ⟨pFinite, qFinite, (overflows pFinite qFinite).mp ⟨fault, formed⟩⟩
  · rintro ⟨pFinite, qFinite, overflow⟩
    rw [mul_of_finite pFinite qFinite]
    simpa only [map_error_iff] using (overflows pFinite qFinite).mpr overflow

theorem mul_fault (pWellFormed : p.WellFormed) (qWellFormed : q.WellFormed)
    (failed : p.mul q = .error fault) : ∃ t u, fault = .productExponent t u := by
  obtain ⟨pFinite, qFinite, formed⟩ := mul_error failed
  have left := pWellFormed.proper pFinite
  have right := qWellFormed.proper qFinite
  obtain ⟨t, tMember, row⟩ := mapM_error (products_error_iff.mp formed)
  obtain ⟨u, uMember, product⟩ := mapM_error row
  exact ⟨t, u, ((Term.mul_error_iff (left.nanFree t tMember) (right.nanFree u uMember)
    (left.nonzero t tMember) (right.nonzero u uMember)).mp product).1⟩

theorem antiderivative_error (failed : p.antiderivative constant = .error fault) :
    p.isNaN = false ∧ p.terms.mapM Term.antiderivative = .error fault := by
  by_cases isNaN : p.isNaN = true ∨ constant = .nan
  · rw [antiderivative_of_isNaN isNaN] at failed
    contradiction
  · obtain ⟨pFinite, constantFinite⟩ : p.isNaN = false ∧ constant ≠ .nan := by simpa using isNaN
    rw [antiderivative_of_finite pFinite constantFinite, map_error_iff] at failed
    exact ⟨pFinite, failed⟩

theorem antiderivative_error_iff (wellFormed : p.WellFormed) (constantFinite : constant ≠ .nan) :
    (∃ fault, p.antiderivative constant = .error fault) ↔ AtLimit p := by
  have limit : p.isNaN = false → ((∃ fault, p.terms.mapM Term.antiderivative = .error fault) ↔
      ∃ t ∈ p.terms, t.exponent.val = 4294967295) := by
    intro finite
    have proper := wellFormed.proper finite
    rw [mapM_error_iff]
    refine exists_congr fun t => and_congr_right fun member => ?_
    simp only [Term.antiderivative_error_iff (proper.nanFree t member) (proper.nonzero t member),
      exists_eq_left]
  constructor
  · rintro ⟨fault, failed⟩
    obtain ⟨finite, traversed⟩ := antiderivative_error failed
    exact ⟨finite, (limit finite).mp ⟨fault, traversed⟩⟩
  · rintro ⟨finite, atLimit⟩
    rw [antiderivative_of_finite finite constantFinite]
    simpa only [map_error_iff] using (limit finite).mpr atLimit

theorem antiderivative_fault (wellFormed : p.WellFormed)
    (failed : p.antiderivative constant = .error fault) :
    ∃ t, fault = .antiderivativeExponent t := by
  obtain ⟨finite, traversed⟩ := antiderivative_error failed
  have proper := wellFormed.proper finite
  obtain ⟨t, member, term⟩ := mapM_error traversed
  exact ⟨t, ((Term.antiderivative_error_iff (proper.nanFree t member)
    (proper.nonzero t member)).mp term).1⟩

theorem integrate_error_iff {lower upper : Float} :
    p.integrate lower upper = .error fault ↔
      lower.isFinite = true ∧ upper.isFinite = true ∧ p.antiderivative 0 = .error fault := by
  unfold integrate
  split
  · rename_i undefined
    refine iff_of_false (fun failed => nomatch failed) ?_
    rintro ⟨lowerFinite, upperFinite, failed⟩
    simp [(antiderivative_error failed).1, lowerFinite, upperFinite] at undefined
  · rename_i defined
    obtain ⟨-, lowerFinite, upperFinite⟩ :
        p.isNaN = false ∧ lower.isFinite = true ∧ upper.isFinite = true := by
      simpa [and_assoc] using defined
    rw [map_error_iff]
    exact ⟨fun failed => ⟨lowerFinite, upperFinite, failed⟩, fun failed => failed.2.2⟩

/-- A division faults in its loop, below a constant divisor. -/
theorem div_fault (pWellFormed : p.WellFormed) (dWellFormed : d.WellFormed)
    (failed : p.div d = .error fault) :
    (∃ kept, fault = .degreeKept kept) ∧
      ∃ c : Term, d.terms = [c] ∧ c.coeff ≠ .nan ∧ c.coeff ≠ 0 ∧ c.exponent.val = 0 := by
  by_cases undefined : p.isNaN = true ∨ d.isNaN = true ∨ d.terms = []
  · rw [div_of_undefined undefined] at failed
    contradiction
  · obtain ⟨pFinite, dFinite, nonzero⟩ :
        p.isNaN = false ∧ d.isNaN = false ∧ d.terms ≠ [] := by simpa using undefined
    obtain ⟨lead, dLeads⟩ := dWellFormed.exists_leads dFinite nonzero
    have proper := pWellFormed.proper pFinite
    obtain ⟨_, run⟩ := divisionLoop_run dLeads proper []
    rw [div_eq_loop dLeads pFinite, map_error_iff] at failed
    have constant : lead.exponent.val = 0 := by
      by_contra positive
      obtain ⟨results, returned⟩ :=
        (run.returns_iff dLeads proper).mpr (.inl (Nat.pos_of_ne_zero positive))
      rw [failed] at returned
      contradiction
    exact ⟨run.fault_eq failed, lead, dLeads.terms_of_constant constant, dLeads.finite,
      dLeads.nonzero, constant⟩

end Poly

end ExactPoly
