import ExactPoly.Proofs.Success
import ExactPoly.Proofs.Poly.Merge

namespace ExactPoly.Poly

open Polynomial

/-! What the operations other than division compute.

Each operation has two lemmas.  `_finite` says that a result that is not NaN
comes from operands that are not NaN and denotes the exact result; `_wellFormed`
says that the result has the stored form again.
-/

variable {terms results : List Term} {t : Term} {p q r : Poly} {constant : Coeff}

theorem valueOf_forall₂ (φ : ℚ[X] →ₗ[ℚ] ℚ[X])
    (related : List.Forall₂ (fun t u => u.value = φ t.value) terms results) :
    valueOf results = φ (valueOf terms) := by
  induction related with
  | nil => exact (map_zero φ).symm
  | cons first _ ih => rw [valueOf_cons, valueOf_cons, map_add, first, ih]

theorem valueOf_map (φ : ℚ[X] →ₗ[ℚ] ℚ[X]) {f : Term → Term}
    (each : ∀ t ∈ terms, (f t).value = φ t.value) : valueOf (terms.map f) = φ (valueOf terms) := by
  apply valueOf_forall₂ φ
  rw [List.forall₂_map_right_iff, List.forall₂_same]
  exact each

/-- Terms that keep or raise all exponents by the same amount keep their order. -/
theorem proper_shift {R : Term → Term → Prop} (shift : Nat)
    (shifted : ∀ t u, R t u → t.coeff ≠ 0 → u.coeff ≠ .nan →
      u.coeff ≠ 0 ∧ u.exponent.val = t.exponent.val + shift)
    (proper : Proper terms) (related : List.Forall₂ R terms results) (free : NaNFree results) :
    Proper results := by
  induction related with
  | nil => exact proper_nil
  | cons first others ih =>
      obtain ⟨⟨-, nonzero⟩, below, restProper⟩ := proper_cons.mp proper
      obtain ⟨finite, restFree⟩ := nanFree_cons.mp free
      obtain ⟨kept, exponent⟩ := shifted _ _ first nonzero finite
      refine proper_cons.mpr ⟨⟨finite, kept⟩, fun v member => ?_, ih restProper restFree⟩
      obtain ⟨w, wMember, wRelated⟩ := exists_input others member
      have vExponent := (shifted w v wRelated (restProper.nonzero w wMember) (restFree v member)).2
      rw [exponent, vExponent]
      exact Nat.add_lt_add_right (below w wMember) shift

theorem valueOf_filter_nonzero (terms : List Term) :
    valueOf (terms.filter (fun t => !t.isZero)) = valueOf terms := by
  induction terms with
  | nil => rfl
  | cons t rest ih =>
      cases zero : t.isZero with
      | true =>
          have vanish : t.value = 0 := by
            rw [Term.value, Term.isZero_iff.mp zero, Coeff.value_zero, monomial_zero_right]
          rw [valueOf_cons, vanish, zero_add, ← ih]
          simp [zero]
      | false =>
          rw [valueOf_cons, ← ih, ← valueOf_cons]
          simp [zero]

theorem neg_of_isNaN (isNaN : p.isNaN = true) : p.neg = nan :=
  if_pos isNaN

theorem neg_of_finite (finite : p.isNaN = false) : p.neg = ofTerms (p.terms.map Term.neg) :=
  if_neg (Bool.eq_false_iff.mp finite)

theorem neg_finite (finite : p.neg.isNaN = false) : p.isNaN = false ∧ p.neg.value = -p.value := by
  cases pFinite : p.isNaN with
  | true =>
      rw [neg_of_isNaN pFinite] at finite
      contradiction
  | false =>
      rw [neg_of_finite pFinite] at finite ⊢
      obtain ⟨free, value⟩ := value_ofTerms finite
      refine ⟨rfl, value.trans ?_⟩
      apply valueOf_map (-LinearMap.id)
      intro t member
      exact Term.value_neg (free _ (List.mem_map_of_mem member))

theorem proper_neg (proper : Proper terms) (free : NaNFree (terms.map Term.neg)) :
    Proper (terms.map Term.neg) := by
  have related : List.Forall₂ (fun t u => u = t.neg) terms (terms.map Term.neg) := by
    rw [List.forall₂_map_right_iff, List.forall₂_same]
    exact fun _ _ => rfl
  refine proper_shift 0 (fun t u same nonzero finite => ?_) proper related free
  subst u
  obtain ⟨kept, exponent⟩ := Term.neg_nonzero finite nonzero
  exact ⟨kept, congrArg Exponent.val exponent⟩

theorem neg_wellFormed (wellFormed : p.WellFormed) : p.neg.WellFormed := by
  cases finite : p.isNaN with
  | true => exact .inl (neg_of_isNaN finite)
  | false =>
      rw [neg_of_finite finite]
      exact wellFormed_ofTerms (proper_neg (wellFormed.proper finite))

/-- The least numerator is the only obstacle to negation. -/
theorem neg_isNaN_iff_least (proper : Proper p.terms) :
    p.neg.isNaN = false ↔ ∀ t ∈ p.terms, ¬ t.coeff.Least := by
  rw [neg_of_finite proper.isNaN_eq_false, ofTerms_isNaN_eq_false_iff, NaNFree, List.forall_mem_map]
  refine forall₂_congr fun t member => ?_
  rw [Term.neg, Term.make_coeff, Ne, Coeff.neg_eq_nan_iff (proper.nanFree t member)]

theorem neg_isNaN_iff (proper : Proper p.terms) :
    p.neg.isNaN = false ↔ ∀ e, (p.value.coeff e).num ≠ -9223372036854775808 := by
  have stored := proper.forall_coeff_iff (P := fun _ x => x.num ≠ -9223372036854775808)
    (fun _ => by decide)
  rw [neg_isNaN_iff_least proper, value, stored]
  exact forall₂_congr fun t member => not_congr (Coeff.least_iff (proper.nanFree t member))

theorem add_of_isNaN (isNaN : p.isNaN = true ∨ q.isNaN = true) : p.add q = nan :=
  if_pos (Bool.or_eq_true_iff.mpr isNaN)

theorem add_of_finite (pFinite : p.isNaN = false) (qFinite : q.isNaN = false) :
    p.add q = ofTerms (mergeAll p.terms q.terms) :=
  if_neg (by simp [pFinite, qFinite])

theorem add_finite (finite : (p.add q).isNaN = false) :
    p.isNaN = false ∧ q.isNaN = false ∧ (p.add q).value = p.value + q.value := by
  by_cases isNaN : p.isNaN = true ∨ q.isNaN = true
  · rw [add_of_isNaN isNaN] at finite
    contradiction
  · obtain ⟨pFinite, qFinite⟩ : p.isNaN = false ∧ q.isNaN = false := by simpa using isNaN
    rw [add_of_finite pFinite qFinite] at finite ⊢
    obtain ⟨free, value⟩ := value_ofTerms finite
    exact ⟨pFinite, qFinite, value.trans (valueOf_mergeAll free)⟩

theorem add_wellFormed (wellFormed : p.WellFormed) : (p.add q).WellFormed := by
  by_cases isNaN : p.isNaN = true ∨ q.isNaN = true
  · exact .inl (add_of_isNaN isNaN)
  · obtain ⟨pFinite, qFinite⟩ : p.isNaN = false ∧ q.isNaN = false := by simpa using isNaN
    rw [add_of_finite pFinite qFinite]
    exact wellFormed_ofTerms (proper_mergeAll (fun _ => wellFormed.proper pFinite))

theorem add_isNaN_iff (pWellFormed : p.WellFormed) (qWellFormed : q.WellFormed)
    (pFinite : p.isNaN = false) (qFinite : q.isNaN = false) :
    (p.add q).isNaN = false ↔ ∀ e, Representable (p.value.coeff e + q.value.coeff e) := by
  rw [add_of_finite pFinite qFinite, ofTerms_isNaN_eq_false_iff]
  exact mergeAll_nanFree_iff (pWellFormed.proper pFinite) (qWellFormed.proper qFinite)

theorem sub_finite (finite : (p.sub q).isNaN = false) :
    p.isNaN = false ∧ q.isNaN = false ∧ (p.sub q).value = p.value - q.value := by
  obtain ⟨pFinite, negFinite, sum⟩ := add_finite finite
  obtain ⟨qFinite, negated⟩ := neg_finite negFinite
  exact ⟨pFinite, qFinite, sum.trans (by rw [negated, sub_eq_add_neg])⟩

theorem sub_isNaN_iff (pProper : Proper p.terms) (qProper : Proper q.terms) :
    (p.sub q).isNaN = false ↔ (∀ e, (q.value.coeff e).num ≠ -9223372036854775808) ∧
      ∀ e, Representable ((p.value - q.value).coeff e) := by
  have pFinite : p.isNaN = false := pProper.isNaN_eq_false
  by_cases negFinite : q.neg.isNaN = false
  · have sums := add_isNaN_iff (.inr pProper) (neg_wellFormed (.inr qProper)) pFinite negFinite
    rw [sub, sums, (neg_finite negFinite).2, ← neg_isNaN_iff qProper]
    simp only [negFinite, true_and, coeff_neg, coeff_add, sub_eq_add_neg]
  · refine iff_of_false (fun finite => negFinite (add_finite finite).2.1) ?_
    rw [← neg_isNaN_iff qProper]
    exact fun fits => negFinite fits.1

theorem sub_wellFormed (wellFormed : p.WellFormed) : (p.sub q).WellFormed :=
  add_wellFormed wellFormed

theorem products_ok_iff {left right : List Term} :
    products left right = .ok results ↔ ∃ rows,
      List.Forall₂ (fun t row => List.Forall₂ (fun u v => t.mul u = .ok v) right row) left rows ∧
      rows.flatten = results := by
  unfold products
  rw [bind_ok_iff]
  refine exists_congr fun rows => and_congr ?_ (iff_of_eq (Except.ok.injEq _ _))
  rw [mapM_ok_iff]
  exact ⟨fun each => each.imp (fun _ _ => mapM_ok_iff.mp),
    fun each => each.imp (fun _ _ => mapM_ok_iff.mpr)⟩

theorem valueOf_row {row : List Term} (free : NaNFree row)
    (multiplied : List.Forall₂ (fun u v => t.mul u = .ok v) terms row) :
    valueOf row = t.value * valueOf terms := by
  apply valueOf_forall₂ (LinearMap.mulLeft ℚ t.value)
  induction multiplied with
  | nil => exact .nil
  | cons first _ ih =>
      obtain ⟨vFinite, rowFree⟩ := nanFree_cons.mp free
      exact .cons (Term.value_mul first vFinite) (ih rowFree)

theorem valueOf_products {left right : List Term} (free : NaNFree results)
    (multiplied : products left right = .ok results) :
    valueOf results = valueOf left * valueOf right := by
  obtain ⟨rows, each, rfl⟩ := products_ok_iff.mp multiplied
  clear multiplied
  induction each with
  | nil => exact (zero_mul _).symm
  | cons first _ ih =>
      obtain ⟨rowFree, restFree⟩ := nanFree_append.mp free
      rw [List.flatten_cons, valueOf_append, valueOf_row rowFree first, ih restFree, valueOf_cons,
        add_mul]

theorem mul_of_isNaN (isNaN : p.isNaN = true ∨ q.isNaN = true) : p.mul q = .ok nan :=
  if_pos (Bool.or_eq_true_iff.mpr isNaN)

theorem mul_of_finite (pFinite : p.isNaN = false) (qFinite : q.isNaN = false) :
    p.mul q = (products p.terms q.terms).map (fun terms => ofTerms (mergeAll [] terms)) :=
  if_neg (by simp [pFinite, qFinite])

theorem mul_ok (multiplied : p.mul q = .ok r) :
    ((p.isNaN = true ∨ q.isNaN = true) ∧ r = nan) ∨
      (p.isNaN = false ∧ q.isNaN = false ∧ ∃ terms, products p.terms q.terms = .ok terms ∧
        r = ofTerms (mergeAll [] terms)) := by
  by_cases isNaN : p.isNaN = true ∨ q.isNaN = true
  · rw [mul_of_isNaN isNaN] at multiplied
    exact .inl ⟨isNaN, (Except.ok.inj multiplied).symm⟩
  · obtain ⟨pFinite, qFinite⟩ : p.isNaN = false ∧ q.isNaN = false := by simpa using isNaN
    rw [mul_of_finite pFinite qFinite] at multiplied
    obtain ⟨terms, formed, same⟩ := map_ok_iff.mp multiplied
    exact .inr ⟨pFinite, qFinite, terms, formed, same.symm⟩

theorem mul_finite (multiplied : p.mul q = .ok r) (finite : r.isNaN = false) :
    p.isNaN = false ∧ q.isNaN = false ∧ r.value = p.value * q.value := by
  rcases mul_ok multiplied with ⟨-, rfl⟩ | ⟨pFinite, qFinite, terms, formed, rfl⟩
  · contradiction
  · obtain ⟨free, value⟩ := value_ofTerms finite
    have sum := valueOf_mergeAll free
    rw [valueOf_nil, zero_add, valueOf_products (mergeAll_nanFree free).2 formed] at sum
    exact ⟨pFinite, qFinite, value.trans sum⟩

theorem mul_wellFormed (multiplied : p.mul q = .ok r) : r.WellFormed := by
  rcases mul_ok multiplied with ⟨-, rfl⟩ | ⟨-, -, terms, -, rfl⟩
  · exact .inl rfl
  · exact wellFormed_ofTerms (proper_mergeAll (fun _ => proper_nil))

theorem ofTerm_of_finite (finite : t.coeff ≠ .nan) :
    (ofTerm t).isNaN = false ∧ (ofTerm t).value = t.value := by
  have free : NaNFree (mergeTerm [] t) := by
    rw [mergeTerm_nanFree_iff proper_nil finite, valueOf_nil, coeff_zero, zero_add]
    exact t.coeff.representable_value
  have notNaN : (ofTerm t).isNaN = false := ofTerms_isNaN_eq_false_iff.mpr free
  refine ⟨notNaN, (value_ofTerms notNaN).2.trans ?_⟩
  rw [valueOf_mergeTerm free, valueOf_nil, zero_add]

theorem monomial_of_representable {c : Int} (e : Exponent) (fits : Representable c) :
    (monomial c e).isNaN = false ∧ (monomial c e).value = Polynomial.monomial e.val (c : ℚ) := by
  have finite : (Term.make (Coeff.ofInt c) e).coeff ≠ .nan := by
    rw [Term.make_coeff, Coeff.ofInt_eq, Coeff.ofRat_ne_nan_iff]
    exact fits
  obtain ⟨notNaN, value⟩ := ofTerm_of_finite finite
  rw [Term.value_make, Coeff.ofInt_eq, Coeff.value_ofRat fits] at value
  exact ⟨notNaN, value⟩

theorem ofTerm_nan : ofTerm .nan = nan :=
  rfl

theorem ofTerm_terms (finite : t.coeff ≠ .nan) (nonzero : t.coeff ≠ 0) :
    (ofTerm t).terms = [t] := by
  have merged : mergeTerm [] t = [t] := by
    rw [mergeTerm, if_neg (mt Term.isZero_iff.mp nonzero), mergeNonzero]
  have free : NaNFree [t] := nanFree_cons.mpr ⟨finite, nanFree_nil⟩
  rw [ofTerm, merged, ofTerms_of_nanFree free]

theorem products_single (proper : Proper terms) (finite : t.coeff ≠ .nan)
    (room : ∀ u ∈ terms, u.exponent.val + t.exponent.val ≤ 4294967295) :
    ∃ results, products terms [t] = .ok results ∧
      List.Forall₂ (fun u v => u.mul t = .ok v) terms results := by
  have defined : ∀ u ∈ terms, ∃ v, u.mul t = .ok v := fun u member =>
    ⟨_, Term.mul_eq (proper.nanFree u member) finite (room u member)⟩
  obtain ⟨results, each⟩ := exists_outputs defined
  have flat : (results.map (fun v => [v])).flatten = results :=
    List.flatMap_singleton' results
  refine ⟨results, products_ok_iff.mpr ⟨_, ?_, flat⟩, each⟩
  rw [List.forall₂_map_right_iff]
  exact each.imp (fun _ _ first => .cons first .nil)

/-- Multiplication by a single term is NaN only through a product that does not fit. -/
theorem mul_ofTerm (proper : Proper p.terms) (finite : t.coeff ≠ .nan) (nonzero : t.coeff ≠ 0)
    (room : ∀ u ∈ p.terms, u.exponent.val + t.exponent.val ≤ 4294967295) :
    ∃ product, p.mul (ofTerm t) = .ok product ∧
      (product.isNaN = false ↔ ∀ e, Representable ((p.value * t.value).coeff e)) := by
  obtain ⟨tFinite, tValue⟩ := ofTerm_of_finite finite
  obtain ⟨results, formed, each⟩ := products_single proper finite room
  have multiplied : p.mul (ofTerm t) = .ok (ofTerms (mergeAll [] results)) := by
    rw [mul_of_finite proper.isNaN_eq_false tFinite, ofTerm_terms finite nonzero,
      formed]
    rfl
  refine ⟨_, multiplied, fun notNaN e => ?_, fun fits => ?_⟩
  · rw [← tValue, ← (mul_finite multiplied notNaN).2.2]
    exact ((mul_wellFormed multiplied).proper notNaN).representable_coeff e
  · have free : NaNFree results := by
      intro v member
      obtain ⟨u, uMember, formedFrom⟩ := exists_input each member
      have sameCoeff : (p.value * t.value).coeff (u.exponent.val + t.exponent.val) =
          u.coeff.value * t.coeff.value := by
        rw [Term.value, coeff_mul_monomial, value, coeff_valueOf_of_mem proper.descending uMember]
      rw [(Term.mul_ok formedFrom).1, Coeff.mul_eq (proper.nanFree u uMember) finite,
        Coeff.ofRat_ne_nan_iff, ← sameCoeff]
      exact fits _
    have resultsProper : Proper results := by
      refine proper_shift t.exponent.val (fun u v product uNonzero vFinite => ?_) proper each free
      have vNonzero := Term.mul_nonzero product uNonzero nonzero vFinite
      exact ⟨vNonzero, (Term.mul_ok product).2 vNonzero vFinite⟩
    rw [ofTerms_isNaN_eq_false_iff, mergeAll_nanFree_iff proper_nil resultsProper]
    intro e
    rw [valueOf_nil, coeff_zero, zero_add]
    exact resultsProper.representable_coeff e

theorem derivative_of_isNaN (isNaN : p.isNaN = true) : p.derivative = nan :=
  if_pos isNaN

theorem derivative_of_finite (finite : p.isNaN = false) :
    p.derivative = ofTerms ((p.terms.map Term.derivative).filter (fun t => !t.isZero)) :=
  if_neg (Bool.eq_false_iff.mp finite)

/-- Terms that vanish are not NaN, so dropping them cannot hide one. -/
theorem nanFree_filter_nonzero (free : NaNFree (terms.filter (fun t => !t.isZero))) :
    NaNFree terms := by
  intro t member isNaN
  have kept : (!t.isZero) = true := by
    rw [Bool.not_eq_true', Term.isZero_eq_false_iff, isNaN]
    exact Coeff.zero_ne_nan.symm
  exact free t (List.mem_filter.mpr ⟨member, kept⟩) isNaN

theorem derivative_finite (finite : p.derivative.isNaN = false) :
    p.isNaN = false ∧ p.derivative.value = Polynomial.derivative p.value := by
  cases pFinite : p.isNaN with
  | true =>
      rw [derivative_of_isNaN pFinite] at finite
      contradiction
  | false =>
      rw [derivative_of_finite pFinite] at finite ⊢
      obtain ⟨free, value⟩ := value_ofTerms finite
      refine ⟨rfl, value.trans ((valueOf_filter_nonzero _).trans ?_)⟩
      apply valueOf_map Polynomial.derivative
      intro t member
      exact Term.value_derivative (nanFree_filter_nonzero free _ (List.mem_map_of_mem member))

theorem proper_derivative (proper : Proper terms)
    (free : NaNFree ((terms.map Term.derivative).filter (fun t => !t.isZero))) :
    Proper ((terms.map Term.derivative).filter (fun t => !t.isZero)) := by
  have lowered : ∀ t ∈ terms, (!t.derivative.isZero) = true →
      t.derivative.exponent.val + 1 = t.exponent.val := by
    intro t member kept
    apply Term.derivative_nonzero (nanFree_filter_nonzero free _ (List.mem_map_of_mem member))
    simpa using kept
  refine ⟨free, fun t member => ?_, ?_⟩
  · simpa using (List.mem_filter.mp member).2
  · rw [List.pairwise_filter, List.pairwise_map]
    refine proper.descending.imp_of_mem (fun {t u} tMember uMember below tKept uKept => ?_)
    have := lowered t tMember tKept
    have := lowered u uMember uKept
    omega

theorem derivative_wellFormed (wellFormed : p.WellFormed) : p.derivative.WellFormed := by
  cases finite : p.isNaN with
  | true => exact .inl (derivative_of_isNaN finite)
  | false =>
      rw [derivative_of_finite finite]
      exact wellFormed_ofTerms (proper_derivative (wellFormed.proper finite))

theorem antiderivative_of_isNaN (isNaN : p.isNaN = true ∨ constant = .nan) :
    p.antiderivative constant = .ok nan :=
  if_pos (by simpa using isNaN)

theorem antiderivative_of_finite (pFinite : p.isNaN = false) (constantFinite : constant ≠ .nan) :
    p.antiderivative constant = (p.terms.mapM Term.antiderivative).map
      (fun terms => ofTerms (mergeTerm terms (Term.make constant 0))) :=
  if_neg (by simpa [pFinite] using constantFinite)

theorem antiderivative_ok (integrated : p.antiderivative constant = .ok r) :
    ((p.isNaN = true ∨ constant = .nan) ∧ r = nan) ∨
      (p.isNaN = false ∧ constant ≠ .nan ∧ ∃ terms,
        List.Forall₂ (fun t u => t.antiderivative = .ok u) p.terms terms ∧
        r = ofTerms (mergeTerm terms (Term.make constant 0))) := by
  by_cases isNaN : p.isNaN = true ∨ constant = .nan
  · rw [antiderivative_of_isNaN isNaN] at integrated
    exact .inl ⟨isNaN, (Except.ok.inj integrated).symm⟩
  · obtain ⟨pFinite, constantFinite⟩ : p.isNaN = false ∧ constant ≠ .nan := by simpa using isNaN
    rw [antiderivative_of_finite pFinite constantFinite] at integrated
    obtain ⟨terms, traversed, same⟩ := map_ok_iff.mp integrated
    exact .inr ⟨pFinite, constantFinite, terms, mapM_ok_iff.mp traversed, same.symm⟩

theorem valueOf_antiderivatives (proper : Proper terms) (free : NaNFree results)
    (integrated : List.Forall₂ (fun t u => t.antiderivative = .ok u) terms results) :
    valueOf results = primitive (valueOf terms) := by
  apply valueOf_forall₂ primitive
  induction integrated with
  | nil => exact .nil
  | cons first _ ih =>
      obtain ⟨⟨-, nonzero⟩, -, restProper⟩ := proper_cons.mp proper
      obtain ⟨finite, restFree⟩ := nanFree_cons.mp free
      exact .cons (Term.antiderivative_ok first nonzero finite).2.2 (ih restProper restFree)

theorem proper_antiderivatives (proper : Proper terms)
    (integrated : List.Forall₂ (fun t u => t.antiderivative = .ok u) terms results)
    (free : NaNFree results) : Proper results := by
  refine proper_shift 1 (fun t u each nonzero finite => ?_) proper integrated free
  obtain ⟨kept, raised, -⟩ := Term.antiderivative_ok each nonzero finite
  exact ⟨kept, raised⟩

theorem antiderivative_finite (wellFormed : p.WellFormed)
    (integrated : p.antiderivative constant = .ok r) (finite : r.isNaN = false) :
    p.isNaN = false ∧ constant ≠ .nan ∧ r.value = primitive p.value + C constant.value := by
  rcases antiderivative_ok integrated with ⟨-, rfl⟩ | ⟨pFinite, constantFinite, terms, each, rfl⟩
  · contradiction
  · obtain ⟨free, value⟩ := value_ofTerms finite
    refine ⟨pFinite, constantFinite, value.trans ?_⟩
    rw [valueOf_mergeTerm free, Term.value_make,
      valueOf_antiderivatives (wellFormed.proper pFinite) (mergeTerm_nanFree free).1 each]
    rfl

theorem antiderivative_wellFormed (wellFormed : p.WellFormed)
    (integrated : p.antiderivative constant = .ok r) : r.WellFormed := by
  rcases antiderivative_ok integrated with ⟨-, rfl⟩ | ⟨pFinite, -, terms, each, rfl⟩
  · exact .inl rfl
  · exact wellFormed_ofTerms
      (proper_mergeTerm (proper_antiderivatives (wellFormed.proper pFinite) each))

end ExactPoly.Poly
