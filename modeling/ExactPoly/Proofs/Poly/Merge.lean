import Mathlib.Tactic.LinearCombination
import ExactPoly.Proofs.Poly.Value

namespace ExactPoly.Poly

open Polynomial

/-! Merging terms into sequences.

`Merged` lists everything that adding one non-zero term can do, on any sequence
whatever.  All laws of merging are read off it: a NaN coefficient never leaves a
sequence again, a result without NaN is the exact sum, and a proper sequence
stays proper until a coefficient does not fit.
-/

variable {terms added result : List Term} {t u : Term} {p : Poly}

/-- What becomes of a sequence into which the term `t` is merged. -/
inductive Merged (t : Term) : List Term → List Term → Prop where
  | inserted {above below : List Term}
      (higher : ∀ u ∈ above, t.exponent.val < u.exponent.val)
      (lower : ∀ u ∈ below.head?, u.exponent.val < t.exponent.val) :
      Merged t (above ++ below) (above ++ t :: below)
  | combined {above below : List Term} {u : Term} (exponent : u.exponent = t.exponent)
      (remains : u.coeff + t.coeff ≠ 0) :
      Merged t (above ++ u :: below)
        (above ++ Term.make (u.coeff + t.coeff) t.exponent :: below)
  | cancelled {above below : List Term} {u : Term} (exponent : u.exponent = t.exponent)
      (cancels : u.coeff + t.coeff = 0) :
      Merged t (above ++ u :: below) (above ++ below)

theorem Merged.cons (higher : t.exponent.val < u.exponent.val)
    (merged : Merged t terms result) : Merged t (u :: terms) (u :: result) := by
  cases merged with
  | inserted above lower =>
      rw [← List.cons_append, ← List.cons_append]
      exact .inserted (List.forall_mem_cons.mpr ⟨higher, above⟩) lower
  | combined exponent remains =>
      rw [← List.cons_append, ← List.cons_append]
      exact .combined exponent remains
  | cancelled exponent cancels =>
      rw [← List.cons_append, ← List.cons_append]
      exact .cancelled exponent cancels

theorem mergeNonzero_merged (t : Term) (terms : List Term) :
    Merged t terms (mergeNonzero t terms) := by
  induction terms with
  | nil => exact @Merged.inserted t [] [] (by simp) (by simp)
  | cons u rest ih =>
      unfold mergeNonzero
      split
      · exact ih.cons ‹_›
      · rename_i notHigher
        split
        · rename_i exponent
          by_cases cancels : u.coeff + t.coeff = 0
          · have zero : (Term.make (u.coeff + t.coeff) t.exponent).isZero = true :=
              Term.isZero_iff.mpr (by rw [Term.make_coeff, cancels])
            rw [if_pos zero]
            exact @Merged.cancelled t [] rest u exponent cancels
          · have nonzero : ¬ (Term.make (u.coeff + t.coeff) t.exponent).isZero = true := by
              rw [Term.isZero_iff, Term.make_coeff]
              exact cancels
            rw [if_neg nonzero]
            exact @Merged.combined t [] rest u exponent cancels
        · rename_i otherExponent
          have lower : u.exponent.val < t.exponent.val :=
            Nat.lt_of_le_of_ne (Nat.le_of_not_lt notHigher) (mt Exponent.ext otherExponent)
          exact @Merged.inserted t [] (u :: rest) (by simp) (by simpa using lower)

/-- A NaN coefficient stays, wherever it stands and whatever is merged. -/
theorem Merged.nanFree (merged : Merged t terms result) (free : NaNFree result) :
    NaNFree terms ∧ t.coeff ≠ .nan := by
  cases merged with
  | inserted =>
      simp only [nanFree_append, nanFree_cons] at free ⊢
      obtain ⟨above, tFinite, below⟩ := free
      exact ⟨⟨above, below⟩, tFinite⟩
  | combined exponent remains =>
      simp only [nanFree_append, nanFree_cons, Term.make_coeff] at free ⊢
      obtain ⟨above, sumFinite, below⟩ := free
      obtain ⟨uFinite, tFinite, -⟩ := Coeff.add_finite sumFinite
      exact ⟨⟨above, uFinite, below⟩, tFinite⟩
  | cancelled exponent cancels =>
      simp only [nanFree_append, nanFree_cons] at free ⊢
      obtain ⟨above, below⟩ := free
      obtain ⟨uFinite, tFinite, -⟩ := Coeff.add_finite (cancels ▸ Coeff.zero_ne_nan)
      exact ⟨⟨above, uFinite, below⟩, tFinite⟩

theorem Merged.sum (merged : Merged t terms result) (free : NaNFree result) :
    valueOf result = valueOf terms + t.value := by
  cases merged with
  | inserted =>
      simp only [valueOf_append, valueOf_cons]
      ring
  | combined exponent remains =>
      simp only [nanFree_append, nanFree_cons, Term.make_coeff] at free
      obtain ⟨-, sumFinite, -⟩ := free
      obtain ⟨-, -, sum⟩ := Coeff.add_finite sumFinite
      simp only [valueOf_append, valueOf_cons, Term.value_make, sum, map_add]
      rw [Term.value, Term.value, exponent]
      ring
  | @cancelled above below u exponent cancels =>
      obtain ⟨-, -, sum⟩ := Coeff.add_finite (cancels ▸ Coeff.zero_ne_nan)
      have opposite := sum.symm.trans (congrArg Coeff.value cancels)
      have vanish : u.value + t.value = 0 := by
        rw [Term.value, Term.value, exponent, ← map_add, opposite, Coeff.value_zero,
          monomial_zero_right]
      simp only [valueOf_append, valueOf_cons]
      linear_combination -vanish

theorem proper_append : Proper (terms ++ added) ↔
    Proper terms ∧ Proper added ∧
      ∀ t ∈ terms, ∀ u ∈ added, u.exponent.val < t.exponent.val := by
  constructor
  · intro whole
    obtain ⟨free, nonzero, descending⟩ := whole
    have ⟨leftFree, rightFree⟩ := nanFree_append.mp free
    have ⟨leftNonzero, rightNonzero⟩ := List.forall_mem_append.mp nonzero
    have ⟨leftSorted, rightSorted, across⟩ := List.pairwise_append.mp descending
    exact ⟨⟨leftFree, leftNonzero, leftSorted⟩, ⟨rightFree, rightNonzero, rightSorted⟩, across⟩
  · intro parts
    obtain ⟨left, right, across⟩ := parts
    exact ⟨nanFree_append.mpr ⟨left.nanFree, right.nanFree⟩,
      List.forall_mem_append.mpr ⟨left.nonzero, right.nonzero⟩,
      List.pairwise_append.mpr ⟨left.descending, right.descending, across⟩⟩

theorem Proper.below_of_head {bound : Nat} (proper : Proper terms)
    (head : ∀ u ∈ terms.head?, u.exponent.val < bound) :
    ∀ u ∈ terms, u.exponent.val < bound := by
  cases terms with
  | nil => exact List.forall_mem_nil _
  | cons first rest =>
      have firstBelow : first.exponent.val < bound := head first rfl
      obtain ⟨-, below, -⟩ := proper_cons.mp proper
      exact List.forall_mem_cons.mpr
        ⟨firstBelow, fun u member => Nat.lt_trans (below u member) firstBelow⟩

theorem Merged.proper (nonzero : t.coeff ≠ 0) (merged : Merged t terms result)
    (free : NaNFree result) (proper : Proper terms) : Proper result := by
  cases merged with
  | inserted higher lower =>
      obtain ⟨-, tFinite, -⟩ := by simpa only [nanFree_append, nanFree_cons] using free
      obtain ⟨aboveProper, belowProper, across⟩ := proper_append.mp proper
      have below := belowProper.below_of_head lower
      have tailProper := proper_cons.mpr ⟨⟨tFinite, nonzero⟩, below, belowProper⟩
      refine proper_append.mpr ⟨aboveProper, tailProper, fun v member => ?_⟩
      exact List.forall_mem_cons.mpr ⟨higher v member, across v member⟩
  | @combined above below u exponent remains =>
      simp only [nanFree_append, nanFree_cons, Term.make_coeff] at free
      obtain ⟨-, sumFinite, -⟩ := free
      obtain ⟨aboveProper, rest, across⟩ := proper_append.mp proper
      obtain ⟨-, below, belowProper⟩ := proper_cons.mp rest
      have kept : (Term.make (u.coeff + t.coeff) t.exponent).exponent = t.exponent :=
        Term.make_exponent remains sumFinite
      refine proper_append.mpr
        ⟨aboveProper, proper_cons.mpr ⟨?_, ?_, belowProper⟩, fun v member => ?_⟩
      · rw [Term.make_coeff]
        exact ⟨sumFinite, remains⟩
      · rw [kept, ← exponent]
        exact below
      · rw [List.forall_mem_cons, kept, ← exponent]
        exact List.forall_mem_cons.mp (across v member)
  | cancelled exponent cancels =>
      obtain ⟨aboveProper, rest, across⟩ := proper_append.mp proper
      obtain ⟨-, -, belowProper⟩ := proper_cons.mp rest
      exact proper_append.mpr ⟨aboveProper, belowProper,
        fun v member => (List.forall_mem_cons.mp (across v member)).2⟩

theorem Proper.entry_sum {above below : List Term} (proper : Proper (above ++ u :: below))
    (tFinite : t.coeff ≠ .nan) (exponent : u.exponent = t.exponent) :
    NaNFree (above ++ below) ∧
      (Representable ((valueOf (above ++ u :: below)).coeff t.exponent.val + t.coeff.value) ↔
        u.coeff + t.coeff ≠ .nan) := by
  have found := coeff_valueOf_of_mem proper.descending (List.mem_append_right above (.head below))
  obtain ⟨aboveFree, entryFree⟩ := nanFree_append.mp proper.nanFree
  obtain ⟨uFinite, belowFree⟩ := nanFree_cons.mp entryFree
  rw [← exponent, found, ← Coeff.ofRat_ne_nan_iff, ← Coeff.add_eq uFinite tFinite]
  exact ⟨nanFree_append.mpr ⟨aboveFree, belowFree⟩, Iff.rfl⟩

/-- Merging into a proper sequence is NaN exactly when the new coefficient does
not fit. -/
theorem Merged.nanFree_iff (proper : Proper terms) (tFinite : t.coeff ≠ .nan)
    (merged : Merged t terms result) :
    NaNFree result ↔ Representable ((valueOf terms).coeff t.exponent.val + t.coeff.value) := by
  cases merged with
  | @inserted above below higher lower =>
      have absent : ∀ u ∈ above ++ below, u.exponent.val ≠ t.exponent.val := by
        obtain ⟨-, belowProper, -⟩ := proper_append.mp proper
        exact List.forall_mem_append.mpr ⟨fun u member => Nat.ne_of_gt (higher u member),
          fun u member => Nat.ne_of_lt (belowProper.below_of_head lower u member)⟩
      have free : NaNFree (above ++ t :: below) := by
        have ⟨aboveFree, belowFree⟩ := nanFree_append.mp proper.nanFree
        exact nanFree_append.mpr ⟨aboveFree, nanFree_cons.mpr ⟨tFinite, belowFree⟩⟩
      rw [coeff_valueOf_of_absent absent, zero_add]
      exact iff_of_true free t.coeff.representable_value
  | combined exponent remains =>
      obtain ⟨restFree, sum⟩ := proper.entry_sum tFinite exponent
      obtain ⟨aboveFree, belowFree⟩ := nanFree_append.mp restFree
      rw [sum]
      simp [aboveFree, belowFree]
  | cancelled exponent cancels =>
      obtain ⟨restFree, sum⟩ := proper.entry_sum tFinite exponent
      rw [sum, cancels]
      exact iff_of_true restFree Coeff.zero_ne_nan

theorem mergeTerm_of_zero (zero : t.coeff = 0) : mergeTerm terms t = terms :=
  if_pos (Term.isZero_iff.mpr zero)

theorem mergeTerm_merged (terms : List Term) (nonzero : t.coeff ≠ 0) :
    Merged t terms (mergeTerm terms t) := by
  rw [mergeTerm, if_neg (mt Term.isZero_iff.mp nonzero)]
  exact mergeNonzero_merged t terms

theorem mergeTerm_nanFree (free : NaNFree (mergeTerm terms t)) :
    NaNFree terms ∧ t.coeff ≠ .nan := by
  by_cases zero : t.coeff = 0
  · rw [mergeTerm_of_zero zero] at free
    exact ⟨free, zero ▸ Coeff.zero_ne_nan⟩
  · exact (mergeTerm_merged terms zero).nanFree free

theorem valueOf_mergeTerm (free : NaNFree (mergeTerm terms t)) :
    valueOf (mergeTerm terms t) = valueOf terms + t.value := by
  by_cases zero : t.coeff = 0
  · rw [mergeTerm_of_zero zero, Term.value, zero, Coeff.value_zero, monomial_zero_right, add_zero]
  · exact (mergeTerm_merged terms zero).sum free

theorem proper_mergeTerm (proper : NaNFree terms → Proper terms)
    (free : NaNFree (mergeTerm terms t)) : Proper (mergeTerm terms t) := by
  have ⟨termsFree, _⟩ := mergeTerm_nanFree free
  by_cases zero : t.coeff = 0
  · rw [mergeTerm_of_zero zero]
    exact proper termsFree
  · exact (mergeTerm_merged terms zero).proper zero free (proper termsFree)

theorem mergeTerm_nanFree_iff (proper : Proper terms) (tFinite : t.coeff ≠ .nan) :
    NaNFree (mergeTerm terms t) ↔
      Representable ((valueOf terms).coeff t.exponent.val + t.coeff.value) := by
  by_cases zero : t.coeff = 0
  · rw [mergeTerm_of_zero zero, zero, Coeff.value_zero, add_zero]
    exact iff_of_true proper.nanFree (proper.representable_coeff _)
  · exact (mergeTerm_merged terms zero).nanFree_iff proper tFinite

theorem mergeAll_cons (terms : List Term) (t : Term) (rest : List Term) :
    mergeAll terms (t :: rest) = mergeAll (mergeTerm terms t) rest :=
  rfl

theorem mergeAll_nanFree (free : NaNFree (mergeAll terms added)) :
    NaNFree terms ∧ NaNFree added := by
  induction added generalizing terms with
  | nil => exact ⟨free, nanFree_nil⟩
  | cons t rest ih =>
      rw [mergeAll_cons] at free
      obtain ⟨mergedFree, restFree⟩ := ih free
      obtain ⟨termsFree, tFinite⟩ := mergeTerm_nanFree mergedFree
      exact ⟨termsFree, nanFree_cons.mpr ⟨tFinite, restFree⟩⟩

theorem valueOf_mergeAll (free : NaNFree (mergeAll terms added)) :
    valueOf (mergeAll terms added) = valueOf terms + valueOf added := by
  induction added generalizing terms with
  | nil => exact (add_zero _).symm
  | cons t rest ih =>
      rw [mergeAll_cons] at free ⊢
      rw [ih free, valueOf_mergeTerm (mergeAll_nanFree free).1, valueOf_cons, add_assoc]

/-- Overflow may leave the sequence out of order; then it is NaN from there on. -/
theorem proper_mergeAll (proper : NaNFree terms → Proper terms)
    (free : NaNFree (mergeAll terms added)) : Proper (mergeAll terms added) := by
  induction added generalizing terms with
  | nil => exact proper free
  | cons t rest ih =>
      rw [mergeAll_cons] at free ⊢
      exact ih (proper_mergeTerm proper) free

/-- Merging terms in any order is NaN exactly when one of them is, or when the sum
of the first few has a coefficient that does not fit. -/
theorem mergeAll_nanFree_iff_take (proper : Proper terms) :
    NaNFree (mergeAll terms added) ↔ NaNFree added ∧
      ∀ n e, Representable ((valueOf terms).coeff e + (valueOf (added.take n)).coeff e) := by
  induction added generalizing terms with
  | nil =>
      refine iff_of_true proper.nanFree ⟨nanFree_nil, fun n e => ?_⟩
      rw [List.take_nil, valueOf_nil, coeff_zero, add_zero]
      exact proper.representable_coeff e
  | cons t rest ih =>
      rw [mergeAll_cons]
      by_cases free : NaNFree (mergeTerm terms t)
      · have tFinite := (mergeTerm_nanFree free).2
        have step (n e : ℕ) :
            (valueOf (mergeTerm terms t)).coeff e + (valueOf (rest.take n)).coeff e =
            (valueOf terms).coeff e + (valueOf ((t :: rest).take (n + 1))).coeff e := by
          rw [valueOf_mergeTerm free, List.take_succ_cons, valueOf_cons, coeff_add, coeff_add,
            add_assoc]
        rw [ih (proper_mergeTerm (fun _ => proper) free), nanFree_cons, and_iff_right tFinite]
        simp only [step]
        refine and_congr_right' ⟨fun fits n e => ?_, fun fits n e => fits (n + 1) e⟩
        cases n with
        | zero =>
            rw [List.take_zero, valueOf_nil, coeff_zero, add_zero]
            exact proper.representable_coeff e
        | succ n => exact fits n e
      · refine iff_of_false (fun resultFree => free (mergeAll_nanFree resultFree).1) ?_
        rintro ⟨addedFree, fits⟩
        apply mt (mergeTerm_nanFree_iff proper (nanFree_cons.mp addedFree).1).mpr free
        simpa [Term.value] using fits 1 t.exponent.val

theorem mergeAll_nanFree_iff (left : Proper terms) (right : Proper added) :
    NaNFree (mergeAll terms added) ↔
      ∀ e, Representable ((valueOf terms).coeff e + (valueOf added).coeff e) := by
  induction added generalizing terms with
  | nil =>
      refine iff_of_true left.nanFree (fun e => ?_)
      rw [valueOf_nil, coeff_zero, add_zero]
      exact left.representable_coeff e
  | cons t rest ih =>
      obtain ⟨⟨tFinite, -⟩, below, restProper⟩ := proper_cons.mp right
      rw [mergeAll_cons]
      by_cases free : NaNFree (mergeTerm terms t)
      · rw [ih (proper_mergeTerm (fun _ => left) free) restProper]
        refine forall_congr' fun e => ?_
        rw [valueOf_mergeTerm free, valueOf_cons, coeff_add, coeff_add, add_assoc]
      -- The terms after `t` have smaller exponents, so nothing mends its sum.
      · have spoilt : ¬ NaNFree (mergeAll (mergeTerm terms t) rest) := fun resultFree =>
          free (mergeAll_nanFree resultFree).1
        refine iff_of_false spoilt (fun fits => ?_)
        apply mt (mergeTerm_nanFree_iff left tFinite).mpr free
        have absent := coeff_valueOf_of_absent (fun u member => Nat.ne_of_lt (below u member))
        simpa [absent, Term.value] using fits t.exponent.val

theorem mergeAll_nil_of_proper (proper : Proper terms) : mergeAll [] terms = terms := by
  have free : NaNFree (mergeAll [] terms) := by
    rw [mergeAll_nanFree_iff proper_nil proper]
    intro e
    rw [valueOf_nil, coeff_zero, zero_add]
    exact proper.representable_coeff e
  refine (proper_mergeAll (fun _ => proper_nil) free).eq_of_valueOf proper ?_
  rw [valueOf_mergeAll free, valueOf_nil, zero_add]

end ExactPoly.Poly
