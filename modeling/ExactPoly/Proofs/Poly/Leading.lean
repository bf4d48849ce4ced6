import ExactPoly.Proofs.Poly.Value

namespace ExactPoly.Poly

open Polynomial

/-! The leading term of a stored polynomial is that of its value. -/

variable {terms : List Term} {top : Term} {p : Poly}

/-- A polynomial other than zero and NaN, with its leading term. -/
structure Leads (top : Term) (p : Poly) : Prop where
  proper : Proper p.terms
  leading : p.leading? = some top

theorem leading?_eq_some_iff : p.leading? = some top ↔ ∃ rest, p.terms = top :: rest := by
  unfold leading?
  cases p.terms with
  | nil => simp
  | cons first rest => simp [eq_comm]

theorem leading?_eq_none_iff : p.leading? = none ↔ p.terms = [] :=
  List.head?_eq_none_iff

theorem Leads.mem (leads : Leads top p) : top ∈ p.terms := by
  obtain ⟨rest, form⟩ := leading?_eq_some_iff.mp leads.leading
  rw [form]
  exact List.mem_cons_self ..

theorem Leads.finite (leads : Leads top p) : top.coeff ≠ .nan :=
  leads.proper.nanFree top leads.mem

theorem Leads.nonzero (leads : Leads top p) : top.coeff ≠ 0 :=
  leads.proper.nonzero top leads.mem

theorem Leads.exponent_le (leads : Leads top p) :
    ∀ t ∈ p.terms, t.exponent.val ≤ top.exponent.val := by
  obtain ⟨rest, form⟩ := leading?_eq_some_iff.mp leads.leading
  have proper := leads.proper
  rw [form] at proper ⊢
  exact List.forall_mem_cons.mpr
    ⟨Nat.le_refl _, fun t member => Nat.le_of_lt ((proper_cons.mp proper).2.1 t member)⟩

theorem degree_valueOf_cons (proper : Proper (top :: terms)) :
    (valueOf (top :: terms)).degree = (top.exponent.val : WithBot ℕ) := by
  obtain ⟨⟨finite, nonzero⟩, below, -⟩ := proper_cons.mp proper
  have topDegree : top.value.degree = (top.exponent.val : WithBot ℕ) :=
    degree_monomial _ (mt (Coeff.value_eq_zero_iff finite).mp nonzero)
  have restDegree : (valueOf terms).degree < top.value.degree := by
    rw [topDegree, degree_lt_iff_coeff_zero]
    intro e above
    exact coeff_valueOf_of_absent (fun u member => ne_of_lt ((below u member).trans_le above))
  rw [valueOf_cons, degree_add_eq_left_of_degree_lt restDegree, topDegree]

theorem Leads.degree_value (leads : Leads top p) :
    p.value.degree = (top.exponent.val : WithBot ℕ) := by
  obtain ⟨rest, form⟩ := leading?_eq_some_iff.mp leads.leading
  have proper := leads.proper
  rw [form] at proper
  rw [value, form]
  exact degree_valueOf_cons proper

theorem Leads.value_ne_zero (leads : Leads top p) : p.value ≠ 0 := by
  rw [← degree_ne_bot, leads.degree_value]
  exact WithBot.coe_ne_bot

theorem Leads.natDegree_value (leads : Leads top p) : p.value.natDegree = top.exponent.val :=
  natDegree_eq_of_degree_eq_some leads.degree_value

theorem Leads.leadingCoeff_value (leads : Leads top p) :
    p.value.leadingCoeff = top.coeff.value := by
  rw [leadingCoeff, leads.natDegree_value]
  exact coeff_valueOf_of_mem leads.proper.descending leads.mem

theorem Leads.height_eq (leads : Leads top p) : p.height = top.exponent.val + 1 := by
  rw [height, leads.leading]

theorem Leads.degree_eq (leads : Leads top p) : p.degree = top.exponent := by
  rw [Poly.degree, leads.leading]
  rfl

theorem height_le_degree_succ (p : Poly) : p.height ≤ p.degree.val + 1 := by
  unfold height Poly.degree
  cases p.leading? with
  | none => exact Nat.zero_le _
  | some top => exact Nat.le_refl _

theorem height_le_iff (proper : Proper p.terms) (n : Nat) :
    p.height ≤ n ↔ p.value.degree < (n : WithBot ℕ) := by
  cases leading : p.leading? with
  | none =>
      have zero : p.value = 0 := by rw [value, leading?_eq_none_iff.mp leading, valueOf_nil]
      simp [height, leading, zero]
  | some top =>
      have leads : Leads top p := ⟨proper, leading⟩
      rw [leads.height_eq, leads.degree_value, Nat.cast_lt]
      exact Nat.succ_le_iff

end ExactPoly.Poly
