import ExactPoly.Proofs.Poly.Fault

namespace ExactPoly.Poly

open Polynomial

/-! Products of polynomials, exactly.

Multiplication merges the products of terms one after another, so the coefficients
that meet at an exponent are summed in the order of the loop.  A product is NaN
exactly when one of these coefficients or one of their running sums does not fit,
whatever exponents come in between.
-/

variable {p q r : Poly} {left right results : List Term} {pairs : List (Term × Term)}

def meetsAt (e : Nat) (pair : Term × Term) : Bool :=
  decide (pair.1.exponent.val + pair.2.exponent.val = e)

/-- The pairs of terms whose products have exponent `e`, in the order of
multiplication: the term of `p` varies slowest. -/
def meeting (p q : Poly) (e : Nat) : List (Term × Term) :=
  (p.terms ×ˢ q.terms).filter (meetsAt e)

def coeffProduct (pair : Term × Term) : ℚ :=
  pair.1.coeff.value * pair.2.coeff.value

/-- What is summed at exponent `e`, in the order of multiplication. -/
def summands (p q : Poly) (e : Nat) : List ℚ :=
  (meeting p q e).map coeffProduct

/-- Every sum of the first few summands fits. -/
def RunningSumsFit (summands : List ℚ) : Prop :=
  ∀ first, first <+: summands → Representable first.sum

/-- Every product of two coefficients fits. -/
def ProductsFit (p q : Poly) : Prop :=
  ∀ t ∈ p.terms, ∀ u ∈ q.terms, Representable (t.coeff.value * u.coeff.value)

instance (p q : Poly) : Decidable (ProductsFit p q) :=
  inferInstanceAs (Decidable (∀ t ∈ p.terms, ∀ u ∈ q.terms, _))

theorem productsFit_iff :
    ProductsFit p q ↔ ∀ pair ∈ p.terms ×ˢ q.terms, Representable (coeffProduct pair) := by
  refine ⟨fun fit pair member => ?_, fun fit t tMember u uMember => ?_⟩
  · obtain ⟨tMember, uMember⟩ := List.mem_product.mp member
    exact fit _ tMember _ uMember
  · exact fit (t, u) (List.mem_product.mpr ⟨tMember, uMember⟩)

theorem forall₂_products (multiplied : products left right = .ok results) :
    List.Forall₂ (fun pair v => pair.1.mul pair.2 = .ok v) (left ×ˢ right) results := by
  obtain ⟨rows, each, rfl⟩ := products_ok_iff.mp multiplied
  clear multiplied
  induction each with
  | nil => exact .nil
  | cons first _ ih =>
      rw [List.product_cons, List.flatten_cons]
      exact List.rel_append (List.forall₂_map_left_iff.mpr first) ih

theorem nanFree_products_iff
    (multiplied : List.Forall₂ (fun pair v => pair.1.mul pair.2 = .ok v) pairs results)
    (finite : ∀ pair ∈ pairs, pair.1.coeff ≠ .nan ∧ pair.2.coeff ≠ .nan) :
    NaNFree results ↔ ∀ pair ∈ pairs, Representable (coeffProduct pair) := by
  induction multiplied with
  | nil => exact iff_of_true nanFree_nil (List.forall_mem_nil _)
  | cons first _ ih =>
      obtain ⟨⟨tFinite, uFinite⟩, restFinite⟩ := List.forall_mem_cons.mp finite
      rw [nanFree_cons, List.forall_mem_cons, ih restFinite, (Term.mul_ok first).1,
        Coeff.mul_eq tFinite uFinite, Coeff.ofRat_ne_nan_iff, coeffProduct]

/-- The coefficient at `e` is the sum of the products that meet there. -/
theorem coeff_valueOf_products
    (multiplied : List.Forall₂ (fun pair v => pair.1.mul pair.2 = .ok v) pairs results)
    (free : NaNFree results) (e : Nat) :
    (valueOf results).coeff e = ((pairs.filter (meetsAt e)).map coeffProduct).sum := by
  induction multiplied with
  | nil => rfl
  | @cons pair v pairs results first _ ih =>
      obtain ⟨finite, restFree⟩ := nanFree_cons.mp free
      rw [valueOf_cons, coeff_add, ih restFree, Term.value_mul first finite, Term.value, Term.value,
        monomial_mul_monomial, coeff_monomial]
      by_cases meets : pair.1.exponent.val + pair.2.exponent.val = e
      · rw [if_pos meets, List.filter_cons_of_pos (by exact decide_eq_true meets), List.map_cons,
          List.sum_cons, coeffProduct]
      · rw [if_neg meets, zero_add, List.filter_cons_of_neg (by simpa [meetsAt] using meets)]

/-- Cutting a list short cuts short what is selected from it, at every place. -/
theorem forall_take_iff {α β : Type} {P : List β → Prop} (keep : α → Bool) (f : α → β)
    (items : List α) :
    (∀ n, P (((items.take n).filter keep).map f)) ↔
      ∀ first, first <+: (items.filter keep).map f → P first := by
  constructor
  · intro cuts first shorter
    obtain ⟨others, whole⟩ := shorter
    obtain ⟨kept, rest, split, rfl, -⟩ := List.map_eq_append_iff.mp whole.symm
    obtain ⟨before, after, rfl, rfl, -⟩ := List.filter_eq_append_iff.mp split
    have cut := cuts before.length
    rwa [List.take_left] at cut
  · intro selections n
    exact selections _ (((List.take_prefix n items).filter keep).map f)

/-- Without a fault, a product is finite exactly when all that is computed on the way fits. -/
theorem mul_isNaN_iff (pProper : Proper p.terms) (qProper : Proper q.terms)
    (multiplied : p.mul q = .ok r) :
    r.isNaN = false ↔ ProductsFit p q ∧ ∀ e, RunningSumsFit (summands p q e) := by
  have pFinite : p.isNaN = false := pProper.isNaN_eq_false
  have qFinite : q.isNaN = false := qProper.isNaN_eq_false
  rw [mul_of_finite pFinite qFinite] at multiplied
  obtain ⟨results, formed, rfl⟩ := map_ok_iff.mp multiplied
  have related := forall₂_products formed
  have finite : ∀ pair ∈ p.terms ×ˢ q.terms, pair.1.coeff ≠ .nan ∧ pair.2.coeff ≠ .nan := by
    intro pair member
    obtain ⟨tMember, uMember⟩ := List.mem_product.mp member
    exact ⟨pProper.nanFree _ tMember, qProper.nanFree _ uMember⟩
  rw [ofTerms_isNaN_eq_false_iff, mergeAll_nanFree_iff_take proper_nil, productsFit_iff,
    nanFree_products_iff related finite, ← nanFree_products_iff related finite]
  refine and_congr_right fun free => ?_
  -- What the first `n` merges leave at `e` is a running sum at `e`, and each one comes up.
  have merged (n e : Nat) : (valueOf []).coeff e + (valueOf (results.take n)).coeff e =
      ((((p.terms ×ˢ q.terms).take n).filter (meetsAt e)).map coeffProduct).sum := by
    have freeSoFar : NaNFree (results.take n) := fun v member => free v (List.mem_of_mem_take member)
    rw [valueOf_nil, coeff_zero, zero_add,
      coeff_valueOf_products (List.forall₂_take n related) freeSoFar]
  simp only [merged]
  rw [forall_comm]
  exact forall_congr' fun e => forall_take_iff (P := fun sums => Representable sums.sum) _ _ _

/-- Multiplication faults exactly through an exponent, is otherwise NaN exactly when a product
of coefficients or a running sum at some exponent does not fit, and is otherwise exact. -/
theorem mul_characterized (pReachable : Reachable p) (qReachable : Reachable q)
    (pFinite : p.isNaN = false) (qFinite : q.isNaN = false) :
    ((∃ fault, p.mul q = .error fault) ↔ ∃ t ∈ p.terms, ∃ u ∈ q.terms,
        Representable (t.coeff.value * u.coeff.value) ∧
          4294967295 < t.exponent.val + u.exponent.val) ∧
      ((¬ ∃ fault, p.mul q = .error fault) → ∃ r, p.mul q = .ok r ∧
        (r = nan ↔ (∃ t ∈ p.terms, ∃ u ∈ q.terms,
            ¬ Representable (t.coeff.value * u.coeff.value)) ∨
          ∃ e first, first <+: summands p q e ∧ ¬ Representable first.sum) ∧
        (r ≠ nan → r.isNaN = false ∧ r.value = p.value * q.value)) := by
  have pWellFormed := pReachable.wellFormed
  have qWellFormed := qReachable.wellFormed
  refine ⟨(mul_error_iff pWellFormed qWellFormed).trans ?_, fun faultless => ?_⟩
  · rw [ProductOverflow, and_iff_right pFinite, and_iff_right qFinite]
  · cases multiplied : p.mul q with
    | error fault => exact absurd ⟨fault, multiplied⟩ faultless
    | ok r =>
        have finite_iff : r ≠ nan ↔ r.isNaN = false := by
          rw [← Bool.not_eq_true, not_iff_not]
          exact ⟨fun same => same ▸ isNaN_nan, (mul_wellFormed multiplied).eq_nan⟩
        refine ⟨r, rfl, ?_, fun notNaN => ?_⟩
        · have fits := finite_iff.trans
            (mul_isNaN_iff (pWellFormed.proper pFinite) (qWellFormed.proper qFinite) multiplied)
          rw [← not_iff_not, ← Ne, fits]
          simp only [ProductsFit, RunningSumsFit, not_or, not_exists, not_and, not_not]
        · have notNaN := finite_iff.mp notNaN
          exact ⟨notNaN, (mul_finite multiplied notNaN).2.2⟩

/-- At `x^2` the running sum exceeds the greatest numerator, although all products fit and the
whole sum does too. -/
theorem running_sum_overflows :
    let p := ((monomial 9223372036854775807 ⟨2, by decide⟩).add (monomial 1 1)).add (monomial 5 0)
    let q := ((monomial (-1) ⟨2, by decide⟩).add (monomial 1 1)).add (monomial 1 0)
    Reachable p ∧ Reachable q ∧ p.isNaN = false ∧ q.isNaN = false ∧ p.mul q = .ok nan ∧
      ProductsFit p q ∧ Representable (summands p q 2).sum ∧
      ∃ e first, first <+: summands p q e ∧ ¬ Representable first.sum := by
  intro p q
  have pReachable : Reachable p := ((Reachable.monomial _ _).add (.monomial _ _)).add (.monomial _ _)
  have qReachable : Reachable q := ((Reachable.monomial _ _).add (.monomial _ _)).add (.monomial _ _)
  have multiplied : p.mul q = .ok nan := by decide +kernel
  have products : ProductsFit p q := by decide +kernel
  refine ⟨pReachable, qReachable, rfl, rfl, multiplied, products, by decide +kernel, ?_⟩
  obtain ⟨r, same, isNaN, -⟩ := (mul_characterized pReachable qReachable rfl rfl).2
    (fun ⟨_, faulted⟩ => nomatch multiplied.symm.trans faulted)
  have isNaNResult := Except.ok.inj (same.symm.trans multiplied)
  rcases isNaN.mp isNaNResult with ⟨t, tMember, u, uMember, unfit⟩ | sums
  · exact absurd (products t tMember u uMember) unfit
  · exact sums

end ExactPoly.Poly
