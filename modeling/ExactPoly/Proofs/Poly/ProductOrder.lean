import ExactPoly.Proofs.Poly.Product

namespace ExactPoly.Poly

open Polynomial

/-! Products with their factors exchanged.

Exchanging the factors reverses the order in which the coefficients of an exponent
are summed.  The exact sums stay the same, but a running sum may fit in one order
and not in the other, and then one of the products is NaN.
-/

variable {p q r s : Poly}

/-- At one exponent the terms of the left factor descend, so those of the right one ascend. -/
theorem meeting_descending (pProper : Proper p.terms) (qProper : Proper q.terms) (e : Nat) :
    (meeting p q e).Pairwise (fun first second =>
      second.1.exponent.val < first.1.exponent.val ∧
        first.2.exponent.val < second.2.exponent.val) := by
  rw [meeting, List.pairwise_filter]
  refine List.pairwise_flatMap.mpr ⟨fun t _ => ?_, pProper.descending.imp fun {t v} lower => ?_⟩
  · rw [List.pairwise_map]
    refine qProper.descending.imp fun {u w} lower uMeets wMeets => ?_
    have uSum := of_decide_eq_true uMeets
    have wSum := of_decide_eq_true wMeets
    dsimp only at uSum wSum
    omega
  · intro first inFirst second inSecond firstMeets secondMeets
    obtain ⟨u, -, rfl⟩ := List.mem_map.mp inFirst
    obtain ⟨w, -, rfl⟩ := List.mem_map.mp inSecond
    have firstSum := of_decide_eq_true firstMeets
    have secondSum := of_decide_eq_true secondMeets
    dsimp only at firstSum secondSum
    have ascends : u.exponent.val < w.exponent.val := by omega
    exact ⟨lower, ascends⟩

theorem mem_meeting_iff {e : Nat} {t u : Term} :
    (t, u) ∈ meeting p q e ↔
      (t ∈ p.terms ∧ u ∈ q.terms) ∧ t.exponent.val + u.exponent.val = e := by
  rw [meeting, List.mem_filter, List.mem_product, meetsAt, decide_eq_true_eq]

theorem meeting_swap (pProper : Proper p.terms) (qProper : Proper q.terms) (e : Nat) :
    (meeting q p e).map Prod.swap = (meeting p q e).reverse := by
  have : Std.Antisymm (fun first second : Term × Term =>
      first.1.exponent.val < second.1.exponent.val) :=
    ⟨fun _ _ below above => absurd below (Nat.lt_asymm above)⟩
  have : Std.Irrefl (fun first second : Term × Term =>
      first.1.exponent.val < second.1.exponent.val) := ⟨fun _ => Nat.lt_irrefl _⟩
  -- Both lists ascend in the terms of `p`, and they hold the same pairs.
  have exchanged : ((meeting q p e).map Prod.swap).Pairwise (fun first second =>
      first.1.exponent.val < second.1.exponent.val) :=
    List.pairwise_map.mpr ((meeting_descending qProper pProper e).imp And.right)
  have reversed : (meeting p q e).reverse.Pairwise (fun first second =>
      first.1.exponent.val < second.1.exponent.val) :=
    List.pairwise_reverse.mpr ((meeting_descending pProper qProper e).imp And.left)
  refine exchanged.eq_of_mem_iff reversed fun (t, u) => ?_
  rw [List.mem_reverse, mem_meeting_iff, List.mem_map_swap, mem_meeting_iff, and_comm (a := u ∈ _),
    Nat.add_comm]

/-- The other order sums the same numbers, from the last to the first. -/
theorem summands_swap (pProper : Proper p.terms) (qProper : Proper q.terms) (e : Nat) :
    summands q p e = (summands p q e).reverse := by
  have product : coeffProduct ∘ Prod.swap = coeffProduct := funext fun _ => mul_comm _ _
  rw [summands, summands, ← List.map_reverse, ← meeting_swap pProper qProper, List.map_map, product]

theorem ProductsFit.symm (fit : ProductsFit p q) : ProductsFit q p := by
  intro u uMember t tMember
  rw [mul_comm]
  exact fit t tMember u uMember

/-- The two products are equal unless the running sums fit in one order of the factors and not
in the other, and then one product is NaN and the other one is not. -/
theorem mul_exchange_iff (pReachable : Reachable p) (qReachable : Reachable q)
    (forward : p.mul q = .ok r) (backward : q.mul p = .ok s) :
    (r = s ↔ p.isNaN = true ∨ q.isNaN = true ∨ ¬ ProductsFit p q ∨
      ((∀ e, RunningSumsFit (summands p q e)) ↔ ∀ e, RunningSumsFit (summands p q e).reverse)) ∧
      (r ≠ s → (r = nan ∧ s.isNaN = false) ∨ (r.isNaN = false ∧ s = nan)) := by
  have rWellFormed := mul_wellFormed forward
  have sWellFormed := mul_wellFormed backward
  have together : r = s ↔ (r.isNaN = false ↔ s.isNaN = false) := by
    refine eq_iff_isNaN rWellFormed sWellFormed fun rFinite sFinite => ?_
    rw [(mul_finite forward rFinite).2.2, (mul_finite backward sFinite).2.2, mul_comm]
  refine ⟨?_, fun different => ?_⟩
  · by_cases undefined : p.isNaN = true ∨ q.isNaN = true
    · rw [mul_of_isNaN undefined] at forward
      rw [mul_of_isNaN undefined.symm] at backward
      exact iff_of_true (Except.ok.inj (forward.symm.trans backward)) (or_assoc.mp (.inl undefined))
    · obtain ⟨pFinite, qFinite⟩ : p.isNaN = false ∧ q.isNaN = false := by simpa using undefined
      have pProper := pReachable.wellFormed.proper pFinite
      have qProper := qReachable.wellFormed.proper qFinite
      rw [together, mul_isNaN_iff pProper qProper forward, mul_isNaN_iff qProper pProper backward,
        (⟨.symm, .symm⟩ : ProductsFit q p ↔ ProductsFit p q)]
      simp only [summands_swap pProper qProper, pFinite, qFinite, Bool.false_eq_true, false_or]
      rw [and_congr_right_iff, imp_iff_not_or]
  · cases rFinite : r.isNaN with
    | true =>
        cases sFinite : s.isNaN with
        | true => exact absurd (together.mpr (by rw [rFinite, sFinite])) different
        | false => exact .inl ⟨rWellFormed.eq_nan rFinite, rfl⟩
    | false =>
        cases sFinite : s.isNaN with
        | true => exact .inr ⟨rfl, sWellFormed.eq_nan sFinite⟩
        | false => exact absurd (together.mpr (iff_of_true rFinite sFinite)) different

/-- From the high powers of the first factor down, `9223372036854775807 + 1 - 5` overflows at
`x^2`; from those of the second one down it does not. -/
theorem product_depends_on_order :
    let p := ((monomial 9223372036854775807 ⟨2, by decide⟩).add (monomial 1 1)).add (monomial 5 0)
    let q := ((monomial (-1) ⟨2, by decide⟩).add (monomial 1 1)).add (monomial 1 0)
    let s := ((((monomial (-9223372036854775807) ⟨4, by decide⟩).add
      (monomial 9223372036854775806 ⟨3, by decide⟩)).add
        (monomial 9223372036854775803 ⟨2, by decide⟩)).add (monomial 6 1)).add (monomial 5 0)
    Reachable p ∧ Reachable q ∧ p.mul q = .ok nan ∧ q.mul p = .ok s ∧ nan ≠ s := by
  intro p q s
  refine ⟨((Reachable.monomial _ _).add (.monomial _ _)).add (.monomial _ _),
    ((Reachable.monomial _ _).add (.monomial _ _)).add (.monomial _ _), ?_, ?_, ?_⟩
  · decide +kernel
  · decide +kernel
  · decide +kernel

theorem opposite_running_sums_fit :
    let p := ((monomial 9223372036854775807 ⟨2, by decide⟩).add (monomial 1 1)).add (monomial 5 0)
    let q := ((monomial (-1) ⟨2, by decide⟩).add (monomial 1 1)).add (monomial 1 0)
    Reachable p ∧ Reachable q ∧ ProductsFit p q ∧ ∃ r s, p.mul q = .ok r ∧ q.mul p = .ok s ∧
      r = nan ∧ s.isNaN = false ∧
      ¬ ((∀ e, RunningSumsFit (summands p q e)) ↔ ∀ e, RunningSumsFit (summands p q e).reverse) := by
  intro p q
  have pReachable : Reachable p := ((Reachable.monomial _ _).add (.monomial _ _)).add (.monomial _ _)
  have qReachable : Reachable q := ((Reachable.monomial _ _).add (.monomial _ _)).add (.monomial _ _)
  have returned : (q.mul p).map isNaN = .ok false := by decide +kernel
  obtain ⟨s, backward, finite⟩ := map_ok_iff.mp returned
  have forward : p.mul q = .ok nan := by decide +kernel
  have different : nan ≠ s := by
    rintro rfl
    contradiction
  obtain ⟨equal_iff, -⟩ := mul_exchange_iff pReachable qReachable forward backward
  refine ⟨pReachable, qReachable, by decide +kernel, nan, s, forward, backward, rfl, finite, ?_⟩
  exact fun together => different (equal_iff.mpr (.inr (.inr (.inr together))))

end ExactPoly.Poly
