import Mathlib.Data.List.Sort
import ExactPoly.Proofs.Term.Value

namespace ExactPoly.Poly

open Polynomial

/-! Sequences of terms as polynomials over the rational numbers.

`valueOf` sums the monomials of a sequence in whatever order they stand.  A
`Proper` sequence is determined by that sum, so equality of polynomials that are
not NaN is equality of values.
-/

variable {terms more : List Term} {t : Term} {p q : Poly}

noncomputable def valueOf (terms : List Term) : ℚ[X] :=
  (terms.map Term.value).sum

noncomputable def value (p : Poly) : ℚ[X] :=
  valueOf p.terms

def NaNFree (terms : List Term) : Prop :=
  ∀ t ∈ terms, t.coeff ≠ .nan

/-- The sequences behind polynomials other than NaN. -/
structure Proper (terms : List Term) : Prop where
  nanFree : NaNFree terms
  nonzero : ∀ t ∈ terms, t.coeff ≠ 0
  descending : terms.Pairwise (fun t u => u.exponent.val < t.exponent.val)

/-- The stored form of every polynomial: one NaN term, or a proper sequence. -/
def WellFormed (p : Poly) : Prop :=
  p = nan ∨ Proper p.terms

@[simp] theorem valueOf_nil : valueOf [] = 0 :=
  rfl

@[simp] theorem valueOf_cons (t : Term) (terms : List Term) :
    valueOf (t :: terms) = t.value + valueOf terms := by
  simp [valueOf]

@[simp] theorem valueOf_append (terms more : List Term) :
    valueOf (terms ++ more) = valueOf terms + valueOf more := by
  simp [valueOf]

theorem nanFree_nil : NaNFree [] :=
  List.forall_mem_nil _

@[simp] theorem nanFree_cons :
    NaNFree (t :: terms) ↔ t.coeff ≠ .nan ∧ NaNFree terms :=
  List.forall_mem_cons

@[simp] theorem nanFree_append :
    NaNFree (terms ++ more) ↔ NaNFree terms ∧ NaNFree more :=
  List.forall_mem_append

theorem any_isNaN_iff : terms.any Term.isNaN = true ↔ ¬ NaNFree terms := by
  simp [NaNFree]

theorem isNaN_iff : p.isNaN = true ↔ ¬ NaNFree p.terms :=
  any_isNaN_iff

theorem isNaN_eq_false_iff : p.isNaN = false ↔ NaNFree p.terms := by
  rw [← Bool.not_eq_true, isNaN_iff, not_not]

theorem isNaN_nan : nan.isNaN = true :=
  rfl

theorem ofTerms_of_nanFree (free : NaNFree terms) : ofTerms terms = ⟨terms⟩ :=
  if_neg (fun found => any_isNaN_iff.mp found free)

theorem ofTerms_of_not_nanFree (spoilt : ¬ NaNFree terms) : ofTerms terms = nan :=
  if_pos (any_isNaN_iff.mpr spoilt)

theorem ofTerms_isNaN_iff : (ofTerms terms).isNaN = true ↔ ¬ NaNFree terms := by
  by_cases free : NaNFree terms
  · rw [ofTerms_of_nanFree free, isNaN_iff]
  · simp [ofTerms_of_not_nanFree free, isNaN_nan, free]

theorem ofTerms_isNaN_eq_false_iff : (ofTerms terms).isNaN = false ↔ NaNFree terms := by
  rw [← Bool.not_eq_true, ofTerms_isNaN_iff, not_not]

theorem value_ofTerms (finite : (ofTerms terms).isNaN = false) :
    NaNFree terms ∧ (ofTerms terms).value = valueOf terms := by
  have free := ofTerms_isNaN_eq_false_iff.mp finite
  rw [ofTerms_of_nanFree free]
  exact ⟨free, rfl⟩

theorem wellFormed_ofTerms (proper : NaNFree terms → Proper terms) :
    (ofTerms terms).WellFormed := by
  by_cases free : NaNFree terms
  · rw [ofTerms_of_nanFree free]
    exact .inr (proper free)
  · exact .inl (ofTerms_of_not_nanFree free)

theorem proper_nil : Proper [] :=
  ⟨nanFree_nil, List.forall_mem_nil _, List.Pairwise.nil⟩

theorem proper_cons :
    Proper (t :: terms) ↔ (t.coeff ≠ .nan ∧ t.coeff ≠ 0) ∧
      (∀ u ∈ terms, u.exponent.val < t.exponent.val) ∧ Proper terms := by
  constructor
  · intro whole
    obtain ⟨free, nonzero, descending⟩ := whole
    have ⟨tFinite, restFree⟩ := nanFree_cons.mp free
    have ⟨tNonzero, restNonzero⟩ := List.forall_mem_cons.mp nonzero
    have ⟨below, sorted⟩ := List.pairwise_cons.mp descending
    exact ⟨⟨tFinite, tNonzero⟩, below, restFree, restNonzero, sorted⟩
  · intro parts
    obtain ⟨⟨tFinite, tNonzero⟩, below, restFree, restNonzero, sorted⟩ := parts
    exact ⟨nanFree_cons.mpr ⟨tFinite, restFree⟩,
      List.forall_mem_cons.mpr ⟨tNonzero, restNonzero⟩, List.pairwise_cons.mpr ⟨below, sorted⟩⟩

theorem Proper.isNaN_eq_false (proper : Proper p.terms) : p.isNaN = false :=
  isNaN_eq_false_iff.mpr proper.nanFree

theorem Proper.canonical (proper : Proper p.terms) : p.Canonical :=
  ⟨fun t member => Bool.eq_false_iff.mpr (mt Term.isZero_iff.mp (proper.nonzero t member)),
    proper.descending⟩

/-- The NaN polynomial is in canonical form too: its one term is not zero. -/
theorem WellFormed.canonical (wellFormed : p.WellFormed) : p.Canonical := by
  rcases wellFormed with rfl | proper
  · decide
  · exact proper.canonical

theorem WellFormed.proper (wellFormed : p.WellFormed) (finite : p.isNaN = false) :
    Proper p.terms := by
  rcases wellFormed with rfl | proper
  · contradiction
  · exact proper

theorem WellFormed.eq_nan (wellFormed : p.WellFormed) (isNaN : p.isNaN = true) : p = nan := by
  rcases wellFormed with same | proper
  · exact same
  · exact absurd proper.nanFree (isNaN_iff.mp isNaN)

theorem WellFormed.ne_nan_iff (wellFormed : p.WellFormed) : p ≠ nan ↔ p.isNaN = false := by
  rw [← Bool.not_eq_true, not_iff_not]
  exact ⟨fun same => same ▸ isNaN_nan, wellFormed.eq_nan⟩

theorem WellFormed.eq_nan_iff {P : Term → Prop} (wellFormed : p.WellFormed)
    (fits : p.isNaN = false ↔ ∀ t ∈ terms, P t) : p = nan ↔ ∃ t ∈ terms, ¬ P t := by
  rw [← not_iff_not, ← Ne, wellFormed.ne_nan_iff, fits]
  simp only [not_exists, not_and, not_not]

theorem length_le_of_descending
    (descending : (t :: terms).Pairwise (fun t u => u.exponent.val < t.exponent.val)) :
    (t :: terms).length ≤ t.exponent.val + 1 := by
  induction terms generalizing t with
  | nil => exact Nat.le_add_left 1 _
  | cons u rest ih =>
      obtain ⟨below, others⟩ := List.pairwise_cons.mp descending
      exact Nat.succ_le_succ (Nat.le_trans (ih others) (below u (.head rest)))

/-- There are no more terms than exponents. -/
theorem WellFormed.length_le (wellFormed : p.WellFormed) : p.terms.length ≤ 4294967296 := by
  rcases wellFormed with rfl | proper
  · decide
  · cases stored : p.terms with
    | nil => exact Nat.zero_le _
    | cons t rest =>
        rw [stored] at proper
        exact Nat.le_trans (length_le_of_descending proper.descending)
          (Nat.succ_le_succ t.exponent.val_le)

theorem coeff_valueOf_of_absent {e : Nat} (absent : ∀ t ∈ terms, t.exponent.val ≠ e) :
    (valueOf terms).coeff e = 0 := by
  induction terms with
  | nil => rfl
  | cons t rest ih =>
      have ⟨tAbsent, restAbsent⟩ := List.forall_mem_cons.mp absent
      rw [valueOf_cons, coeff_add, ih restAbsent, Term.value, coeff_monomial, if_neg tAbsent,
        add_zero]

theorem coeff_value_of_large (p : Poly) {e : Nat} (large : 4294967295 < e) :
    p.value.coeff e = 0 :=
  coeff_valueOf_of_absent (fun t _ => Nat.ne_of_lt (Nat.lt_of_le_of_lt t.exponent.val_le large))

theorem coeff_valueOf_of_mem
    (descending : terms.Pairwise (fun t u => u.exponent.val < t.exponent.val))
    (member : t ∈ terms) : (valueOf terms).coeff t.exponent.val = t.coeff.value := by
  induction terms with
  | nil => contradiction
  | cons u rest ih =>
      have ⟨below, sorted⟩ := List.pairwise_cons.mp descending
      rw [valueOf_cons, coeff_add]
      rcases List.mem_cons.mp member with rfl | member
      · have absent := coeff_valueOf_of_absent (fun v inRest => Nat.ne_of_lt (below v inRest))
        rw [absent, Term.value, coeff_monomial_same, add_zero]
      · have other : u.exponent.val ≠ t.exponent.val := Nat.ne_of_gt (below t member)
        rw [ih sorted member, Term.value, coeff_monomial, if_neg other, zero_add]

/-- What holds of zero everywhere and of all stored coefficients holds of every coefficient. -/
theorem Proper.forall_coeff_iff {P : ℕ → ℚ → Prop} (zero : ∀ e, P e 0) (proper : Proper terms) :
    (∀ e, P e ((valueOf terms).coeff e)) ↔ ∀ t ∈ terms, P t.exponent.val t.coeff.value := by
  constructor
  · intro all t member
    rw [← coeff_valueOf_of_mem proper.descending member]
    exact all t.exponent.val
  · intro stored e
    by_cases present : ∃ t ∈ terms, t.exponent.val = e
    · obtain ⟨t, member, rfl⟩ := present
      rw [coeff_valueOf_of_mem proper.descending member]
      exact stored t member
    · rw [coeff_valueOf_of_absent (fun t member same => present ⟨t, member, same⟩)]
      exact zero e

theorem Proper.representable_coeff (proper : Proper terms) (e : Nat) :
    Representable ((valueOf terms).coeff e) :=
  (proper.forall_coeff_iff (P := fun _ => Representable) (fun _ => by decide)).mpr
    (fun t _ => t.coeff.representable_value) e

/-- A term of a proper sequence is found in the value, and nothing else is. -/
theorem Proper.mem_iff (proper : Proper terms) :
    t ∈ terms ↔ t.coeff ≠ .nan ∧ t.coeff ≠ 0 ∧
      (valueOf terms).coeff t.exponent.val = t.coeff.value := by
  constructor
  · intro member
    exact ⟨proper.nanFree t member, proper.nonzero t member,
      coeff_valueOf_of_mem proper.descending member⟩
  · intro entry
    obtain ⟨finite, nonzero, found⟩ := entry
    by_cases present : ∃ u ∈ terms, u.exponent.val = t.exponent.val
    · obtain ⟨u, member, sameExponent⟩ := present
      have sameValue : u.coeff.value = t.coeff.value := by
        rw [← coeff_valueOf_of_mem proper.descending member, sameExponent, found]
      have sameCoeff := Coeff.value_injective (proper.nanFree u member) finite sameValue
      have same : u = t := Term.eq_of_parts sameCoeff (Exponent.ext sameExponent)
      exact same ▸ member
    · have absent := coeff_valueOf_of_absent
        (fun u member sameExponent => present ⟨u, member, sameExponent⟩)
      exact absurd ((Coeff.value_eq_zero_iff finite).mp (found.symm.trans absent)) nonzero

theorem Proper.eq_of_valueOf (left : Proper terms) (right : Proper more)
    (same : valueOf terms = valueOf more) : terms = more := by
  have : Std.Antisymm (fun t u : Term => u.exponent.val < t.exponent.val) :=
    ⟨fun _ _ below above => absurd below (Nat.lt_asymm above)⟩
  have : Std.Irrefl (fun t u : Term => u.exponent.val < t.exponent.val) :=
    ⟨fun _ => Nat.lt_irrefl _⟩
  refine left.descending.eq_of_mem_iff right.descending (fun t => ?_)
  rw [left.mem_iff, right.mem_iff, same]

theorem value_injective (pWellFormed : p.WellFormed) (qWellFormed : q.WellFormed)
    (pFinite : p.isNaN = false) (qFinite : q.isNaN = false) (same : p.value = q.value) :
    p = q := by
  cases p
  cases q
  exact congrArg Poly.mk
    ((pWellFormed.proper pFinite).eq_of_valueOf (qWellFormed.proper qFinite) same)

end ExactPoly.Poly
