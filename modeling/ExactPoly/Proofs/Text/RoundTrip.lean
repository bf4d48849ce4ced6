import ExactPoly.Proofs.Poly.Reachable
import ExactPoly.Proofs.Text.Printed
import ExactPoly.Proofs.Text.Scan

namespace ExactPoly

/-! Printing polynomials and then reading them.

A printed polynomial is the text of a literal with one signed term for each of
its terms.  There a minus sign stands before a term, so a negative term reads back
as its double negation: the term itself, or NaN when its numerator is the least one.
-/

namespace Sign

/-- The sign in front of a first term; a plus sign is left out. -/
def leading : Sign → Option Sign
  | plus => none
  | minus => some minus

theorem getD_leading (s : Sign) : s.leading.getD plus = s := by
  cases s <;> rfl

end Sign

namespace Term

variable {t : Term}

/-- What a printed term reads as. -/
def reread (t : Term) : Term :=
  if t.coeff.isNegative then t.neg.neg else t

theorem reread_of_least (least : t.coeff.Least) : (reread t).coeff = .nan := by
  rw [reread, if_pos least.isNegative, neg, make_coeff, neg, make_coeff,
    (Coeff.neg_eq_nan_iff least.finite).mpr least]
  rfl

theorem reread_of_not_least (finite : t.coeff ≠ .nan) (notLeast : ¬ t.coeff.Least) :
    reread t = t := by
  by_cases negative : t.coeff.isNegative = true
  · have nonzero : t.coeff ≠ 0 := fun zero => absurd (zero ▸ negative) (by decide)
    have negated : t.neg.coeff ≠ .nan := by
      rw [neg, make_coeff]
      exact mt (Coeff.neg_eq_nan_iff finite).mp notLeast
    have kept := (neg_nonzero negated nonzero).2
    rw [reread, if_pos negative, neg, kept, neg, make_coeff,
      Coeff.neg_neg_of_not_least finite notLeast, make_parts]
  · exact if_neg negative

theorem exists_literal_print (finite : t.coeff ≠ .nan) :
    ∃ (s : Sign) (l : Literal), t.print = s.leading.toList.map Sign.char ++ l.text ∧
      Poly.printNext t = Poly.Literal.spell (s, l) ∧ Poly.Literal.stored (s, l) = reread t := by
  have notNaN : ¬ t.isNaN = true := mt isNaN_iff.mp finite
  unfold Poly.printNext print reread
  rw [if_neg notNaN]
  by_cases negative : t.coeff.isNegative = true
  · obtain ⟨l, spelled, stored⟩ :=
      exists_literal_printUnsigned (Coeff.isNegative_neg negative) t.exponent
    rw [if_pos negative, if_pos negative, if_pos negative, ← spelled]
    exact ⟨.minus, l, rfl, rfl, congrArg neg stored⟩
  · obtain ⟨l, spelled, stored⟩ :=
      exists_literal_printUnsigned (Bool.eq_false_iff.mpr negative) t.exponent
    rw [if_neg negative, if_neg negative, if_neg negative, ← spelled]
    exact ⟨.plus, l, rfl, rfl, stored.trans t.make_parts⟩

end Term

namespace Poly

variable {p : Poly} {terms : List Term}

theorem exists_literals_printNext (free : NaNFree terms) :
    ∃ rest : List (Sign × Term.Literal), terms.flatMap printNext = rest.flatMap Literal.spell ∧
      rest.map Literal.stored = terms.map Term.reread := by
  induction terms with
  | nil => exact ⟨[], rfl, rfl⟩
  | cons t terms ih =>
      obtain ⟨finite, termsFree⟩ := nanFree_cons.mp free
      obtain ⟨s, l, -, spelled, stored⟩ := Term.exists_literal_print finite
      obtain ⟨rest, restSpelled, restStored⟩ := ih termsFree
      refine ⟨(s, l) :: rest, ?_, ?_⟩
      · rw [List.flatMap_cons, List.flatMap_cons, spelled, restSpelled]
      · rw [List.map_cons, List.map_cons, stored, restStored]

/-- Printing and reading merges the double negations of the terms. -/
theorem read_print_eq (finite : p.isNaN = false) :
    read p.print = .ok (ofTerms (mergeAll [] (p.terms.map Term.reread))) := by
  have notNaN : ¬ p.isNaN = true := Bool.eq_false_iff.mp finite
  have free := isNaN_eq_false_iff.mp finite
  unfold print
  rw [if_neg notNaN]
  cases shape : p.terms with
  | nil => rfl
  | cons first rest =>
      rw [shape] at free
      obtain ⟨firstFinite, restFree⟩ := nanFree_cons.mp free
      obtain ⟨s, l, spelled, -, stored⟩ := Term.exists_literal_print firstFinite
      obtain ⟨literals, restSpelled, restStored⟩ := exists_literals_printNext restFree
      have text : (⟨s.leading, l, literals⟩ : Literal).text =
          first.print ++ rest.flatMap printNext := by
        rw [Literal.text, spelled, restSpelled]
      have terms : (⟨s.leading, l, literals⟩ : Literal).terms =
          (first :: rest).map Term.reread := by
        rw [Literal.terms, Literal.signed, s.getD_leading, List.map_cons, List.map_cons, stored,
          restStored]
      change read (first.print ++ rest.flatMap printNext) = _
      rw [← text, Literal.read_text, Literal.poly, terms]

theorem exists_read_print (p : Poly) : ∃ q, read p.print = .ok q := by
  by_cases isNaN : p.isNaN = true
  · exact ⟨nan, by rw [print, if_pos isNaN]; rfl⟩
  · exact ⟨_, read_print_eq (Bool.eq_false_iff.mpr isNaN)⟩

theorem read_print_of_not_least (wellFormed : p.WellFormed)
    (noneLeast : ∀ t ∈ p.terms, ¬ t.coeff.Least) : read p.print = .ok p := by
  by_cases isNaN : p.isNaN = true
  · rw [wellFormed.eq_nan isNaN]
    rfl
  · have finite : p.isNaN = false := Bool.eq_false_iff.mpr isNaN
    have proper := wellFormed.proper finite
    have free := isNaN_eq_false_iff.mp finite
    have same : p.terms.map Term.reread = p.terms :=
      (List.map_congr_left fun t member =>
        Term.reread_of_not_least (free t member) (noneLeast t member)).trans (List.map_id' _)
    rw [read_print_eq finite, same, mergeAll_nil_of_proper proper, ofTerms_of_nanFree free]

theorem read_print_of_least (wellFormed : p.WellFormed) {t : Term} (member : t ∈ p.terms)
    (least : t.coeff.Least) : p.isNaN = false ∧ read p.print = .ok nan := by
  have finite : p.isNaN = false := by
    refine Bool.eq_false_iff.mpr fun isNaN => least.finite ?_
    rw [wellFormed.eq_nan isNaN] at member
    rw [List.mem_singleton.mp member]
    rfl
  have spoilt : ¬ NaNFree (mergeAll [] (p.terms.map Term.reread)) := fun free =>
    (mergeAll_nanFree free).2 _ (List.mem_map_of_mem member) (Term.reread_of_least least)
  exact ⟨finite, by rw [read_print_eq finite, ofTerms_of_not_nanFree spoilt]⟩

/-- A printed polynomial is always read.  The result is the polynomial, unless a
numerator is the least one: then it is NaN, although the polynomial is not. -/
theorem read_print (reachable : Reachable p) :
    (∃ q, read p.print = .ok q) ∧
      (read p.print = .ok p ↔ ∀ t ∈ p.terms, ¬ t.coeff.Least) ∧
      ((∃ t ∈ p.terms, t.coeff.Least) → p.isNaN = false ∧ read p.print = .ok nan) := by
  have wellFormed := reachable.wellFormed
  by_cases noneLeast : ∀ t ∈ p.terms, ¬ t.coeff.Least
  · have same := read_print_of_not_least wellFormed noneLeast
    refine ⟨⟨p, same⟩, iff_of_true same noneLeast, ?_⟩
    rintro ⟨t, member, least⟩
    exact absurd least (noneLeast t member)
  · have someLeast : ∃ t ∈ p.terms, t.coeff.Least := by simpa using noneLeast
    obtain ⟨t, member, least⟩ := someLeast
    obtain ⟨finite, isNaN⟩ := read_print_of_least wellFormed member least
    have changed : read p.print ≠ .ok p := by
      rw [isNaN]
      intro same
      rw [← Except.ok.inj same, isNaN_nan] at finite
      contradiction
    exact ⟨⟨nan, isNaN⟩, iff_of_false changed noneLeast, fun _ => ⟨finite, isNaN⟩⟩

theorem least_numerator_not_kept :
    let p := (monomial (-9223372036854775808) ⟨2, by decide⟩).add (monomial 3 0)
    Reachable p ∧ (∃ t ∈ p.terms, t.coeff.Least) ∧ p.print = "-NaN*x^2+3".toList ∧
      p.isNaN = false ∧ read p.print = .ok nan := by
  intro p
  have reachable : Reachable p := (Reachable.monomial _ _).add (.monomial _ _)
  have least : ∃ t ∈ p.terms, t.coeff.Least := by decide
  exact ⟨reachable, least, by decide, (read_print reachable).2.2 least⟩

end Poly

end ExactPoly
