import ExactPoly.Proofs.Poly.Merge
import ExactPoly.Proofs.Text.Scan

namespace ExactPoly

open Polynomial

/-! What is read is what is written.

The stored form of a literal is NaN exactly when the literal is undefined, and
otherwise has its value.  An unsigned coefficient is never negative, so a minus
sign before it always fits.
-/

theorem representable_div {num den : ℕ} (numBound : num ≤ 9223372036854775807)
    (denBound : den ≤ 9223372036854775807) (nonzero : den ≠ 0) :
    Representable ((num : ℚ) / (den : ℚ)) := by
  have quotient : (num : ℚ) / (den : ℚ) = Rat.divInt num den :=
    Rat.intCast_div_eq_divInt num den
  have nonneg : 0 ≤ (Rat.divInt num den).num :=
    Rat.num_nonneg.mpr (Rat.divInt_nonneg (Int.natCast_nonneg num) (Int.natCast_nonneg den))
  have numDivides := Rat.num_dvd num (Int.natCast_ne_zero.mpr nonzero)
  have denLe := Int.le_of_dvd (by omega) (Rat.den_dvd num den)
  rw [quotient]
  refine ⟨by omega, ?_, by omega⟩
  rcases Nat.eq_zero_or_pos num with rfl | positive
  · simp
  · have numLe := Int.le_of_dvd (by omega) numDivides
    omega

theorem Text.Numeral.representable (m : Text.Numeral 9223372036854775807) :
    Representable (m.value : ℚ) := by
  have bounded : m.value ≤ 9223372036854775807 := m.bounded
  rw [← div_one (m.value : ℚ), ← Nat.cast_one]
  exact representable_div bounded (by decide) Nat.one_ne_zero

namespace Coeff.Literal

theorem coeff_of_undefined {l : Literal} (undefined : l.Undefined) : l.coeff = .nan := by
  cases l with
  | nan => rfl
  | integer num => exact undefined.elim
  | quotient num den =>
      have zero : den.value = 0 := undefined
      exact ofRatio_undefined (by rw [zero]; rfl)

theorem coeff_of_defined {l : Literal} (defined : ¬ l.Undefined) :
    l.coeff ≠ .nan ∧ l.coeff.value = l.value := by
  have stored : l.coeff = ofRat l.value ∧ Representable l.value := by
    cases l with
    | nan => exact absurd trivial defined
    | integer num => exact ⟨ofInt_eq num.value, num.representable⟩
    | quotient num den =>
        have nonzero : den.value ≠ 0 := defined
        exact ⟨ofRatio_eq (Int.natCast_ne_zero.mpr nonzero),
          representable_div num.bounded den.bounded nonzero⟩
  rw [stored.1]
  exact ⟨ofRat_ne_nan_iff.mpr stored.2, value_ofRat stored.2⟩

theorem value_num_nonneg (l : Literal) : 0 ≤ l.value.num := by
  cases l with
  | nan => exact Int.le_refl 0
  | integer num => exact Int.natCast_nonneg num.value
  | quotient num den =>
      have quotient : (num.value : ℚ) / (den.value : ℚ) = Rat.divInt num.value den.value :=
        Rat.intCast_div_eq_divInt num.value den.value
      rw [value, quotient, Rat.num_nonneg]
      exact Rat.divInt_nonneg (Int.natCast_nonneg num.value) (Int.natCast_nonneg den.value)

end Coeff.Literal

namespace Term.Literal

theorem headCoeff_of_undefined {coeff? : Option Coeff.Literal}
    (undefined : ∃ coeff ∈ coeff?, coeff.Undefined) : headCoeff coeff? = .nan := by
  obtain ⟨coeff, rfl, undefined⟩ := undefined
  exact Coeff.Literal.coeff_of_undefined undefined

theorem headCoeff_of_defined {coeff? : Option Coeff.Literal}
    (defined : ¬ ∃ coeff ∈ coeff?, coeff.Undefined) :
    headCoeff coeff? ≠ .nan ∧ (headCoeff coeff?).value = coeff?.elim 1 Coeff.Literal.value ∧
      0 ≤ (headCoeff coeff?).value.num := by
  cases coeff? with
  | none => decide
  | some coeff =>
      obtain ⟨finite, value⟩ := Coeff.Literal.coeff_of_defined (l := coeff)
        (fun undefined => defined ⟨coeff, rfl, undefined⟩)
      have same : (headCoeff (some coeff)).value = coeff.value := value
      rw [same]
      exact ⟨finite, rfl, coeff.value_num_nonneg⟩

theorem term_of_undefined {l : Literal} (undefined : l.Undefined) : l.term.coeff = .nan := by
  cases l with
  | constant coeff => rw [term, make_coeff, Coeff.Literal.coeff_of_undefined undefined]
  | power coeff? exponent? => rw [term, make_coeff, headCoeff_of_undefined undefined]

theorem term_of_defined {l : Literal} (defined : ¬ l.Undefined) :
    l.term.coeff ≠ .nan ∧ l.term.value = l.value ∧ 0 ≤ l.term.coeff.value.num := by
  cases l with
  | constant coeff =>
      obtain ⟨finite, same⟩ := Coeff.Literal.coeff_of_defined defined
      rw [term, make_coeff, value_make, same]
      exact ⟨finite, rfl, coeff.value_num_nonneg⟩
  | power coeff? exponent? =>
      obtain ⟨finite, same, nonneg⟩ := headCoeff_of_defined defined
      rw [term, make_coeff, value_make, value, ← same]
      refine ⟨finite, ?_, nonneg⟩
      cases exponent? <;> rfl

end Term.Literal

namespace Poly.Literal

variable {signed : Sign × Term.Literal} {all : List (Sign × Term.Literal)}

theorem stored_of_undefined (undefined : signed.2.Undefined) : (stored signed).coeff = .nan := by
  obtain ⟨sign, l⟩ := signed
  cases sign with
  | plus => exact Term.Literal.term_of_undefined undefined
  | minus =>
      rw [stored, Sign.apply, Term.neg, Term.make_coeff, Term.Literal.term_of_undefined undefined]
      rfl

theorem stored_of_defined (defined : ¬ signed.2.Undefined) :
    (stored signed).coeff ≠ .nan ∧ (stored signed).value = C signed.1.factor * signed.2.value := by
  obtain ⟨sign, l⟩ := signed
  obtain ⟨finite, same, nonneg⟩ := Term.Literal.term_of_defined defined
  cases sign with
  | plus =>
      refine ⟨finite, same.trans ?_⟩
      rw [Sign.factor, C_1, one_mul]
  | minus =>
      have negated : l.term.neg.coeff ≠ .nan := by
        rw [Term.neg, Term.make_coeff, Coeff.neg_eq finite, Coeff.ofRat_ne_nan_iff,
          Coeff.representable_neg_iff l.term.coeff.representable_value]
        exact fun least => absurd (least ▸ nonneg) (by decide)
      refine ⟨negated, (Term.value_neg negated).trans ?_⟩
      rw [same, Sign.factor, C_neg, C_1, neg_one_mul]

theorem nanFree_stored_iff :
    NaNFree (all.map stored) ↔ ∀ signed ∈ all, ¬ signed.2.Undefined := by
  rw [NaNFree, List.forall_mem_map]
  exact forall₂_congr fun signed _ =>
    ⟨mt stored_of_undefined, fun defined => (stored_of_defined defined).1⟩

theorem valueOf_stored (defined : ∀ signed ∈ all, ¬ signed.2.Undefined) :
    valueOf (all.map stored) = sum all := by
  rw [valueOf, sum, List.map_map]
  exact congrArg List.sum
    (List.map_congr_left fun signed member => (stored_of_defined (defined signed member)).2)

/-- A sum is NaN exactly when a term of it is undefined or one of its running sums
has a coefficient that does not fit. -/
theorem poly_isNaN_iff (l : Literal) :
    l.poly.isNaN = true ↔ (∃ signed ∈ l.signed, signed.2.Undefined) ∨
      ∃ n e, ¬ Representable ((sum (l.signed.take n)).coeff e) := by
  rw [poly, ofTerms_isNaN_iff, mergeAll_nanFree_iff_take proper_nil, terms, nanFree_stored_iff]
  by_cases defined : ∀ signed ∈ l.signed, ¬ signed.2.Undefined
  · have running (n : ℕ) : valueOf ((l.signed.map stored).take n) = sum (l.signed.take n) := by
      rw [← List.map_take]
      exact valueOf_stored fun signed member => defined signed (List.mem_of_mem_take member)
    have noneUndefined : ¬ ∃ signed ∈ l.signed, signed.2.Undefined := by
      simpa using defined
    simp only [running, valueOf_nil, coeff_zero, zero_add, or_iff_right noneUndefined]
    rw [not_and, forall_prop_of_true defined]
    simp only [not_forall]
  · refine iff_of_true (fun fits => defined fits.1) (.inl ?_)
    simpa using defined

theorem value_poly {l : Literal} (finite : l.poly.isNaN = false) : l.poly.value = sum l.signed := by
  obtain ⟨free, value⟩ := value_ofTerms finite
  have defined := nanFree_stored_iff.mp (mergeAll_nanFree free).2
  rw [poly, value, valueOf_mergeAll free, valueOf_nil, zero_add, terms, valueOf_stored defined]

end Poly.Literal

namespace Poly

/-- The reader accepts exactly the texts of the grammar.  Its result is NaN when a
written term is undefined or a running sum does not fit, and otherwise the sum of
the written terms. -/
theorem read_grammar_and_meaning :
    (∀ text, (∃ p, read text = .ok p) ↔ ∃ l : Literal, l.text = text) ∧
      ∀ l : Literal, ∃ p, read l.text = .ok p ∧
        (p.isNaN = true ↔ (∃ signed ∈ l.signed, signed.2.Undefined) ∨
          ∃ n e, ¬ Representable ((Literal.sum (l.signed.take n)).coeff e)) ∧
        (p.isNaN = false → p.value = Literal.sum l.signed) := by
  refine ⟨fun text => ⟨fun ⟨p, accepted⟩ => ?_, fun ⟨l, spelled⟩ => ?_⟩, fun l => ?_⟩
  · obtain ⟨l, spelled, -⟩ := exists_literal accepted
    exact ⟨l, spelled⟩
  · exact ⟨l.poly, spelled ▸ l.read_text⟩
  · exact ⟨l.poly, l.read_text, l.poly_isNaN_iff, Literal.value_poly⟩

end Poly

end ExactPoly
