import ExactPoly.Proofs.Poly.Coefficients

namespace ExactPoly.Poly

open Polynomial

/-! One insertion, and insertions in any order.

Into a proper sequence a term is inserted exactly, as long as the coefficient that it
changes still fits.  An overflow leaves a NaN term behind, possibly out of order, and
no insertion that follows takes it away.  So what overflows can depend on the order of
insertions, and nothing else can.
-/

variable {terms first second : List Term} {t u : Term}

/-- The entry that a term is added to.  The scan stops at the first exponent that is not
greater, on sequences out of order too. -/
def partner? (terms : List Term) (t : Term) : Option Term :=
  (terms.find? fun u => decide (u.exponent.val ≤ t.exponent.val)).filter
    fun u => decide (u.exponent = t.exponent)

def SumOverflows (terms : List Term) (t : Term) : Prop :=
  ∃ u, partner? terms t = some u ∧ u.coeff + t.coeff = .nan

/-- The exact coefficient at the exponent of a term after it is added. -/
def sumAt (terms : List Term) (t : Term) : ℚ :=
  (Poly.mk terms).coeffAt t.exponent + t.coeff.value

theorem sumOverflows_of_higher (higher : t.exponent.val < u.exponent.val) :
    SumOverflows (u :: terms) t ↔ SumOverflows terms t := by
  rw [SumOverflows, partner?, List.find?_cons_of_neg (by simpa using higher)]
  rfl

theorem sumOverflows_of_equal (equal : u.exponent = t.exponent) :
    SumOverflows (u :: terms) t ↔ u.coeff + t.coeff = .nan := by
  rw [SumOverflows, partner?, List.find?_cons_of_pos (by simp [equal])]
  simp [equal]

theorem not_sumOverflows_of_lower (lower : u.exponent.val < t.exponent.val) :
    ¬ SumOverflows (u :: terms) t := by
  have other : u.exponent ≠ t.exponent :=
    fun same => Nat.ne_of_lt lower (congrArg Exponent.val same)
  rw [SumOverflows, partner?, List.find?_cons_of_pos (by simpa using Nat.le_of_lt lower)]
  simp [other]

theorem mergeNonzero_nanFree_iff :
    NaNFree (mergeNonzero t terms) ↔ NaNFree terms ∧ t.coeff ≠ .nan ∧ ¬ SumOverflows terms t := by
  induction terms with
  | nil => simp [mergeNonzero, SumOverflows, partner?, nanFree_nil]
  | cons u rest ih =>
      rcases Nat.lt_trichotomy u.exponent.val t.exponent.val with lower | level | higher
      · have inserted : mergeNonzero t (u :: rest) = t :: u :: rest := by
          rw [mergeNonzero, if_neg (Nat.lt_asymm lower),
            if_neg fun same => Nat.ne_of_lt lower (congrArg Exponent.val same)]
        rw [inserted, nanFree_cons, and_comm]
        exact and_congr_right' (iff_self_and.mpr fun _ => not_sumOverflows_of_lower lower)
      · have equal := Exponent.ext level
        have kept : NaNFree (mergeNonzero t (u :: rest)) ↔
            u.coeff + t.coeff ≠ .nan ∧ NaNFree rest := by
          rw [mergeNonzero, if_neg (by rw [level]; exact Nat.lt_irrefl _), if_pos equal]
          dsimp only
          split
          · rename_i cancels
            rw [Term.isZero_iff, Term.make_coeff] at cancels
            rw [cancels, and_iff_right Coeff.zero_ne_nan]
          · rw [nanFree_cons, Term.make_coeff]
        rw [kept, sumOverflows_of_equal equal, nanFree_cons]
        constructor
        · rintro ⟨sumFinite, restFree⟩
          obtain ⟨uFinite, tFinite, -⟩ := Coeff.add_finite sumFinite
          exact ⟨⟨uFinite, restFree⟩, tFinite, sumFinite⟩
        · rintro ⟨⟨-, restFree⟩, -, sumFinite⟩
          exact ⟨sumFinite, restFree⟩
      · rw [mergeNonzero, if_pos higher, nanFree_cons, nanFree_cons, ih,
          sumOverflows_of_higher higher, and_assoc]

theorem mem_of_partner? (found : partner? terms t = some u) : u ∈ terms :=
  List.mem_of_find?_eq_some (Option.filter_eq_some_iff.mp found).1

/-- A NaN coefficient comes from the sequence, from the term or from their sum. -/
theorem not_nanFree_mergeTerm_iff :
    ¬ NaNFree (mergeTerm terms t) ↔
      ¬ NaNFree terms ∨ t.coeff = .nan ∨ SumOverflows terms t := by
  by_cases zero : t.coeff = 0
  · rw [mergeTerm_of_zero zero]
    refine ⟨.inl, ?_⟩
    rintro (spoilt | isNaN | ⟨u, found, overflow⟩) free
    · exact spoilt free
    · exact Coeff.zero_ne_nan (zero.symm.trans isNaN)
    · have finite := free u (mem_of_partner? found)
      rw [zero, Coeff.add_eq finite Coeff.zero_ne_nan, Coeff.value_zero, add_zero,
        Coeff.ofRat_value finite] at overflow
      exact finite overflow
  · rw [mergeTerm, if_neg (mt Term.isZero_iff.mp zero), mergeNonzero_nanFree_iff, not_and_or,
      not_and_or, not_not, not_not]

theorem mergeAll_spoilt (spoilt : ¬ NaNFree terms) (added : List Term) :
    ¬ NaNFree (mergeAll terms added) :=
  mt (fun free => (mergeAll_nanFree free).1) spoilt

theorem valueOf_perm (same : first.Perm second) : valueOf first = valueOf second :=
  (same.map Term.value).sum_eq

theorem mergeAll_perm (same : first.Perm second) (firstFree : NaNFree (mergeAll [] first))
    (secondFree : NaNFree (mergeAll [] second)) : mergeAll [] first = mergeAll [] second := by
  refine (proper_mergeAll (fun _ => proper_nil) firstFree).eq_of_valueOf
    (proper_mergeAll (fun _ => proper_nil) secondFree) ?_
  rw [valueOf_mergeAll firstFree, valueOf_mergeAll secondFree, valueOf_perm same]

theorem Proper.sumAt_eq (proper : Proper terms) (t : Term) :
    sumAt terms t = (valueOf terms).coeff t.exponent.val + t.coeff.value :=
  congrArg (· + t.coeff.value) (Proper.coeffAt_eq (p := ⟨terms⟩) proper t.exponent)

theorem mem_mergeTerm_iff (proper : Proper terms) (tFinite : t.coeff ≠ .nan)
    (fits : Representable (sumAt terms t)) :
    Proper (mergeTerm terms t) ∧
      (∀ u, u.exponent = t.exponent →
        (u ∈ mergeTerm terms t ↔ u.coeff = .ofRat (sumAt terms t) ∧ sumAt terms t ≠ 0)) ∧
      (∀ u, u.exponent ≠ t.exponent → (u ∈ mergeTerm terms t ↔ u ∈ terms)) := by
  have free : NaNFree (mergeTerm terms t) :=
    (mergeTerm_nanFree_iff proper tFinite).mpr (proper.sumAt_eq t ▸ fits)
  have merged := proper_mergeTerm (fun _ => proper) free
  have value := valueOf_mergeTerm free
  refine ⟨merged, fun u same => ?_, fun u other => ?_⟩
  · rw [merged.mem_iff, value, coeff_add, Term.value, same, coeff_monomial_same, ← proper.sumAt_eq]
    constructor
    · rintro ⟨finite, nonzero, sum⟩
      rw [sum, Coeff.ofRat_value finite]
      exact ⟨rfl, mt (Coeff.value_eq_zero_iff finite).mp nonzero⟩
    · rintro ⟨stored, nonzero⟩
      have finite : u.coeff ≠ .nan := stored ▸ Coeff.ofRat_ne_nan_iff.mpr fits
      have sum : u.coeff.value = sumAt terms t := stored ▸ Coeff.value_ofRat fits
      exact ⟨finite, fun vanish => nonzero (sum ▸ congrArg Coeff.value vanish), sum.symm⟩
  · have apart : t.exponent.val ≠ u.exponent.val := fun equal => other (Exponent.ext equal).symm
    rw [merged.mem_iff, value, coeff_add, Term.value, coeff_monomial, if_neg apart, add_zero,
      ← proper.mem_iff]

/-- An insertion into a proper sequence changes one entry, by the exact sum, unless that sum
does not fit.  On any sequence NaN stays once it is there.  Two orders of the same insertions
that stay clear of NaN have the same result. -/
theorem insertion_characterized (terms : List Term) (t : Term) :
    (Proper terms → t.coeff ≠ .nan → Representable (sumAt terms t) →
      Proper (mergeTerm terms t) ∧
        (∀ u, u.exponent = t.exponent →
          (u ∈ mergeTerm terms t ↔ u.coeff = .ofRat (sumAt terms t) ∧ sumAt terms t ≠ 0)) ∧
        (∀ u, u.exponent ≠ t.exponent → (u ∈ mergeTerm terms t ↔ u ∈ terms))) ∧
      (¬ NaNFree (mergeTerm terms t) ↔
        ¬ NaNFree terms ∨ t.coeff = .nan ∨ SumOverflows terms t) ∧
      (¬ NaNFree (mergeTerm terms t) →
        ∀ added, ¬ NaNFree (mergeAll (mergeTerm terms t) added)) ∧
      (∀ first second : List Term, first.Perm second → NaNFree (mergeAll [] first) →
        NaNFree (mergeAll [] second) → mergeAll [] first = mergeAll [] second) :=
  ⟨mem_mergeTerm_iff, not_nanFree_mergeTerm_iff, mergeAll_spoilt, fun _ _ => mergeAll_perm⟩

/-- Below the greatest coefficient `x` cancels.  Inserted at `x^2` it overflows, and taking it
away again does not help; in another order the sum fits. -/
theorem cancelling_and_overflowing_insertions :
    let square : Exponent := ⟨2, by decide⟩
    let top := Term.make (.ofInt 9223372036854775807) square
    let terms := [top, Term.make 1 1]
    (Proper terms ∧ Representable (sumAt terms (.make (-1) 1)) ∧
        ∀ u, u.exponent ≠ 1 → (u ∈ mergeTerm terms (.make (-1) 1) ↔ u ∈ terms)) ∧
      (SumOverflows terms (.make 1 square) ∧
        ¬ NaNFree (mergeAll (mergeTerm terms (.make 1 square)) [.make (-1) square])) ∧
      mergeAll [] [top, .make (-1) square, .make 1 square] =
        mergeAll [] [.make 1 square, .make (-1) square, top] := by
  intro square top terms
  have proper : Proper terms := ⟨by unfold NaNFree; decide, by decide, by decide⟩
  have fits : Representable (sumAt terms (.make (-1) 1)) := by decide +kernel
  have overflows : SumOverflows terms (.make 1 square) :=
    ⟨top, by decide +kernel, by decide +kernel⟩
  have ⟨inserted, _, _, orders⟩ := insertion_characterized terms (.make (-1) 1)
  have ⟨_, spoilt, stays, _⟩ := insertion_characterized terms (.make 1 square)
  refine ⟨⟨proper, fits, (inserted proper (by decide) fits).2.2⟩, ⟨overflows, ?_⟩, ?_⟩
  · exact stays (spoilt.mpr (.inr (.inr overflows))) [.make (-1) square]
  · have free : NaNFree (mergeAll [] [top, .make (-1) square, .make 1 square]) := by
      unfold NaNFree
      decide +kernel
    have backFree : NaNFree (mergeAll [] [.make 1 square, .make (-1) square, top]) := by
      unfold NaNFree
      decide +kernel
    exact orders _ _ (List.reverse_perm _).symm free backFree

end ExactPoly.Poly
