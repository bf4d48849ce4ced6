import ExactPoly.Proofs.Poly.Reachable

namespace ExactPoly.Poly

open Polynomial

/-! Coefficients by exponent.

A stored polynomial is determined by the terms that a look-up finds.  An operation
`Computes` a family of coefficients if its result is NaN exactly when one of them does
not fit, and otherwise holds these coefficients and nothing else.
-/

variable {terms : List Term} {t : Term} {p r : Poly} {e : Exponent} {f : Exponent → ℚ}

/-- The coefficient that a look-up finds; zero if there is none. -/
def coeffAt (p : Poly) (e : Exponent) : ℚ :=
  (p.term e).coeff.value

structure HasCoeffs (r : Poly) (f : Exponent → ℚ) : Prop where
  canonical : r.Canonical
  coeff : ∀ e, (r.term e).coeff ≠ .nan ∧ (r.term e).coeff.value = f e
  exponent : ∀ e, f e ≠ 0 → (r.term e).exponent = e
  absent : ∀ e, f e = 0 → r.term e = 0
  /-- There are no terms but those that a look-up finds. -/
  stored : ∀ t ∈ r.terms, f t.exponent ≠ 0 ∧ r.term t.exponent = t

structure Computes (r : Poly) (f : Exponent → ℚ) : Prop where
  nan_iff : r = nan ↔ ∃ e, ¬ Representable (f e)
  coeffs : r ≠ nan → r.HasCoeffs f

theorem find?_of_mem
    (descending : terms.Pairwise (fun t u => u.exponent.val < t.exponent.val))
    (member : t ∈ terms) :
    terms.find? (fun u => decide (u.exponent = t.exponent)) = some t := by
  induction terms with
  | nil => contradiction
  | cons u rest ih =>
      have ⟨below, sorted⟩ := List.pairwise_cons.mp descending
      cases List.mem_cons.mp member with
      | inl same =>
          subst u
          exact List.find?_cons_of_pos (by simp)
      | inr inRest =>
          have other : u.exponent ≠ t.exponent := fun same =>
            Nat.ne_of_gt (below t inRest) (congrArg Exponent.val same)
          rw [List.find?_cons_of_neg (by simpa using other)]
          exact ih sorted inRest

theorem Proper.term_of_mem (proper : Proper p.terms) (member : t ∈ p.terms) :
    p.term t.exponent = t := by
  rw [term, find?_of_mem proper.descending member, Option.getD_some]

theorem term_of_absent (absent : ∀ t ∈ p.terms, t.exponent ≠ e) : p.term e = 0 := by
  have nowhere : p.terms.find? (fun t => decide (t.exponent = e)) = none := by
    simpa using absent
  rw [term, nowhere, Option.getD_none]

theorem Proper.term_eq (proper : Proper p.terms) (e : Exponent) :
    p.term e = Term.make (.ofRat (p.value.coeff e.val)) e := by
  by_cases present : ∃ t ∈ p.terms, t.exponent = e
  · obtain ⟨t, member, rfl⟩ := present
    rw [proper.term_of_mem member, value, coeff_valueOf_of_mem proper.descending member,
      Coeff.ofRat_value (proper.nanFree t member), Term.make_parts]
  · have absent : ∀ t ∈ p.terms, t.exponent ≠ e := fun t member same => present ⟨t, member, same⟩
    have zero : p.value.coeff e.val = 0 :=
      coeff_valueOf_of_absent (fun t member same => absent t member (Exponent.ext same))
    rw [term_of_absent absent, zero, Coeff.ofRat_zero, Term.make_zero]

theorem Proper.representable (proper : Proper p.terms) (e : Exponent) :
    Representable (p.value.coeff e.val) :=
  proper.representable_coeff e.val

theorem Proper.coeffAt_eq (proper : Proper p.terms) (e : Exponent) :
    p.coeffAt e = p.value.coeff e.val := by
  rw [coeffAt, proper.term_eq, Term.make_coeff, Coeff.value_ofRat (proper.representable e)]

theorem Proper.hasCoeffs (proper : Proper r.terms)
    (value : ∀ e : Exponent, r.value.coeff e.val = f e) : r.HasCoeffs f where
  canonical := proper.canonical
  coeff e := by
    have fits := proper.representable e
    rw [proper.term_eq, Term.make_coeff, ← value]
    exact ⟨Coeff.ofRat_ne_nan_iff.mpr fits, Coeff.value_ofRat fits⟩
  exponent e nonzero := by
    have fits := proper.representable e
    rw [proper.term_eq]
    refine Term.make_exponent (fun zero => nonzero ?_) (Coeff.ofRat_ne_nan_iff.mpr fits)
    rw [← value, ← Coeff.value_ofRat fits, zero, Coeff.value_zero]
  absent e zero := by
    rw [proper.term_eq, value, zero, Coeff.ofRat_zero, Term.make_zero]
  stored t member := by
    refine ⟨?_, proper.term_of_mem member⟩
    rw [← value, Poly.value, coeff_valueOf_of_mem proper.descending member, Ne,
      Coeff.value_eq_zero_iff (proper.nanFree t member)]
    exact proper.nonzero t member

/-- Exponents are bounded, so there is nothing to say about any other number. -/
theorem forall_exponent_iff {P : Nat → Prop} (large : ∀ e, 4294967295 < e → P e) :
    (∀ e, P e) ↔ ∀ e : Exponent, P e.val := by
  refine ⟨fun all e => all e.val, fun each e => ?_⟩
  by_cases bound : e ≤ 4294967295
  · exact each ⟨e, bound⟩
  · exact large e (Nat.lt_of_not_le bound)

theorem WellFormed.computes (wellFormed : r.WellFormed)
    (fits : r.isNaN = false ↔ ∀ e, Representable (f e))
    (value : r.isNaN = false → ∀ e : Exponent, r.value.coeff e.val = f e) : r.Computes f where
  nan_iff := by
    rw [← not_iff_not, ← Ne, wellFormed.ne_nan_iff, fits]
    simp only [not_exists, not_not]
  coeffs notNaN := by
    have finite := wellFormed.ne_nan_iff.mp notNaN
    exact (wellFormed.proper finite).hasCoeffs (value finite)

end ExactPoly.Poly
