import Mathlib.Algebra.Polynomial.Derivative
import ExactPoly.Proofs.Coeff.Value
import ExactPoly.Arithmetic

namespace ExactPoly

open Polynomial

/-! Terms as monomials over the rational numbers.

An operation on terms that yields a finite coefficient yields the term of the
exact monomial.  Faults concern exponents only, so each lemma about an operation
that can fail assumes that it did not.
-/

/-- The formal antiderivative without constant term. -/
noncomputable def primitive : ℚ[X] →ₗ[ℚ] ℚ[X] :=
  lsum fun e => ((e + 1 : ℚ)⁻¹) • monomial (e + 1)

theorem primitive_monomial (e : ℕ) (a : ℚ) :
    primitive (monomial e a) = monomial (e + 1) (a / (e + 1)) := by
  simp [primitive, lsum_apply, sum_monomial_index, smul_monomial, div_eq_inv_mul]

theorem derivative_primitive (f : ℚ[X]) : derivative (primitive f) = f := by
  induction f using Polynomial.induction_on' with
  | add f g fIH gIH => rw [map_add, derivative_add, fIH, gIH]
  | monomial e a =>
      have positive : (e + 1 : ℚ) ≠ 0 := Nat.cast_add_one_ne_zero e
      rw [primitive_monomial, derivative_monomial]
      congr 1
      rw [Nat.cast_add_one, div_mul_cancel₀ a positive]

theorem primitive_coeff_succ (f : ℚ[X]) (e : ℕ) :
    (primitive f).coeff (e + 1) = f.coeff e / (e + 1) := by
  induction f using Polynomial.induction_on' with
  | add f g fIH gIH => rw [map_add, coeff_add, coeff_add, fIH, gIH, add_div]
  | monomial d a =>
      rw [primitive_monomial, coeff_monomial, coeff_monomial]
      by_cases same : d = e
      · rw [if_pos same, if_pos (congrArg Nat.succ same), same]
      · rw [if_neg same, if_neg (mt Nat.succ.inj same), zero_div]

theorem primitive_coeff_zero (f : ℚ[X]) : (primitive f).coeff 0 = 0 := by
  induction f using Polynomial.induction_on' with
  | add f g fIH gIH => rw [map_add, coeff_add, fIH, gIH, add_zero]
  | monomial e a => rw [primitive_monomial, coeff_monomial, if_neg e.succ_ne_zero]

theorem primitive_derivative (f : ℚ[X]) : primitive (derivative f) = f - C (f.coeff 0) := by
  ext e
  cases e with
  | zero => rw [primitive_coeff_zero, coeff_sub, coeff_C_zero, sub_self]
  | succ e =>
      have positive : (e + 1 : ℚ) ≠ 0 := Nat.cast_add_one_ne_zero e
      rw [primitive_coeff_succ, coeff_derivative, mul_div_cancel_right₀ _ positive, coeff_sub,
        coeff_C_succ, sub_zero]

theorem Exponent.ext {e f : Exponent} (same : e.val = f.val) : e = f := by
  cases e
  cases f
  cases same
  rfl

theorem Exponent.representable (n : Nat) (bound : n ≤ 4294967295) :
    Representable ((n : Int) : ℚ) := by
  simp only [Representable, InRange, Rat.num_intCast, Rat.den_intCast]
  omega

namespace Term

noncomputable def value (t : Term) : ℚ[X] :=
  monomial t.exponent.val t.coeff.value

@[simp] theorem isNaN_iff {t : Term} : t.isNaN = true ↔ t.coeff = .nan :=
  Coeff.isNaN_iff

@[simp] theorem isZero_iff {t : Term} : t.isZero = true ↔ t.coeff = 0 :=
  Coeff.isZero_iff

@[simp] theorem isNaN_eq_false_iff {t : Term} : t.isNaN = false ↔ t.coeff ≠ .nan := by
  rw [← Bool.not_eq_true, isNaN_iff]

@[simp] theorem isZero_eq_false_iff {t : Term} : t.isZero = false ↔ t.coeff ≠ 0 := by
  rw [← Bool.not_eq_true, isZero_iff]

theorem eq_of_parts {t u : Term} (coeff : t.coeff = u.coeff) (exponent : t.exponent = u.exponent) :
    t = u := by
  cases t
  cases u
  cases coeff
  cases exponent
  rfl

theorem eq_nan {t : Term} (coeff : t.coeff = .nan) : t = nan :=
  eq_of_parts coeff (t.exponent_eq_zero (Or.inr coeff))

@[simp] theorem value_make (c : Coeff) (e : Exponent) :
    (make c e).value = monomial e.val c.value := by
  by_cases trivial : c = 0 ∨ c = .nan
  · have zero : c.value = 0 := by
      rcases trivial with rfl | rfl <;> rfl
    simp [value, zero]
  · rw [value, make_coeff, make_exponent (fun h => trivial (.inl h)) (fun h => trivial (.inr h))]

theorem make_zero (e : Exponent) : make 0 e = 0 :=
  dif_pos (.inl rfl)

theorem constant_exponent (c : Coeff) : (make c 0).exponent.val = 0 := by
  unfold make
  split <;> rfl

theorem make_parts (t : Term) : make t.coeff t.exponent = t := by
  by_cases trivial : t.coeff = 0 ∨ t.coeff = .nan
  · refine eq_of_parts (make_coeff ..) ?_
    rw [make, dif_pos trivial, t.exponent_eq_zero trivial]
  · rw [not_or] at trivial
    exact eq_of_parts (make_coeff ..) (make_exponent trivial.1 trivial.2)

theorem value_neg {t : Term} (finite : t.neg.coeff ≠ .nan) : t.neg.value = -t.value := by
  rw [neg, make_coeff] at finite
  rw [neg, value_make, (Coeff.neg_finite finite).2, monomial_neg, value]

theorem neg_nonzero {t : Term} (finite : t.neg.coeff ≠ .nan) (nonzero : t.coeff ≠ 0) :
    t.neg.coeff ≠ 0 ∧ t.neg.exponent = t.exponent := by
  rw [neg, make_coeff] at finite ⊢
  obtain ⟨tFinite, negated⟩ := Coeff.neg_finite finite
  have kept : -t.coeff ≠ 0 := by
    intro zero
    rw [zero, Coeff.value_zero] at negated
    exact nonzero ((Coeff.value_eq_zero_iff tFinite).mp (neg_eq_zero.mp negated.symm))
  exact ⟨kept, make_exponent kept finite⟩

theorem derivative_coeff (t : Term) :
    t.derivative.coeff = t.coeff * Coeff.ofInt t.exponent.val := by
  unfold derivative
  split
  · have isNaN : t.coeff = .nan := isNaN_iff.mp ‹_›
    rw [isNaN, Coeff.nan_mul]
    rfl
  · exact make_coeff ..

theorem value_exponent (e : Exponent) : (Coeff.ofInt e.val).value = e.val := by
  rw [Coeff.ofInt_eq, Coeff.value_ofRat (Exponent.representable e.val e.val_le), Int.cast_natCast]

theorem exponent_finite (e : Exponent) : Coeff.ofInt e.val ≠ .nan := by
  rw [Coeff.ofInt_eq, Coeff.ofRat_ne_nan_iff]
  exact Exponent.representable e.val e.val_le

theorem value_derivative {t : Term} (finite : t.derivative.coeff ≠ .nan) :
    t.derivative.value = Polynomial.derivative t.value := by
  rw [derivative_coeff] at finite
  obtain ⟨tFinite, -, product⟩ := Coeff.mul_finite finite
  have notNaN : ¬ t.isNaN = true := fun isNaN => tFinite (isNaN_iff.mp isNaN)
  rw [derivative, if_neg notNaN, value_make, product, value_exponent, value, derivative_monomial]
  rfl

/-- The constant term is the only one that vanishes. -/
theorem derivative_nonzero {t : Term} (finite : t.derivative.coeff ≠ .nan)
    (nonzero : t.derivative.coeff ≠ 0) : t.derivative.exponent.val + 1 = t.exponent.val := by
  have product := derivative_coeff t
  rw [product] at finite nonzero
  have positive : t.exponent.val ≠ 0 := by
    intro zero
    have vanish : (t.coeff * Coeff.ofInt t.exponent.val).value = 0 := by
      rw [(Coeff.mul_finite finite).2.2, value_exponent, zero, Nat.cast_zero, mul_zero]
    exact nonzero ((Coeff.value_eq_zero_iff finite).mp vanish)
  have notNaN : ¬ t.isNaN = true := fun isNaN => (Coeff.mul_finite finite).1 (isNaN_iff.mp isNaN)
  rw [derivative, if_neg notNaN, make_exponent nonzero finite]
  exact Nat.sub_add_cancel (Nat.pos_of_ne_zero positive)

theorem ofParts_ok {c : Coeff} {e? : Option Exponent} {fault : Fault} {t : Term}
    (built : ofParts c e? fault = .ok t) :
    t.coeff = c ∧ (c ≠ 0 → c ≠ .nan → e? = some t.exponent) := by
  unfold ofParts at built
  split at built
  · cases built
    refine ⟨make_coeff .., fun nonzero finite => ?_⟩
    simp_all
  · cases e? with
    | none => contradiction
    | some e =>
        cases built
        exact ⟨make_coeff .., fun nonzero finite => by rw [make_exponent nonzero finite]⟩

/-- A term with an exponent at hand; dropping the exponent of a trivial
coefficient is what `make` does anyway. -/
theorem ofParts_some (c : Coeff) (e : Exponent) (fault : Fault) :
    ofParts c (some e) fault = .ok (make c e) := by
  unfold ofParts
  split
  · have trivial : c = 0 ∨ c = .nan := by simpa using ‹(c.isZero || c.isNaN) = true›
    simp only [make, dif_pos trivial]
  · rfl

theorem mul_eq {t u : Term} (tFinite : t.coeff ≠ .nan) (uFinite : u.coeff ≠ .nan)
    (room : t.exponent.val + u.exponent.val ≤ 4294967295) :
    t.mul u = .ok (make (t.coeff * u.coeff) ⟨t.exponent.val + u.exponent.val, room⟩) := by
  have notNaN : ¬ (t.isNaN || u.isNaN) = true := by simp [tFinite, uFinite]
  have sum : t.exponent.add? u.exponent = some ⟨t.exponent.val + u.exponent.val, room⟩ :=
    dif_pos room
  rw [mul, if_neg notNaN, sum, ofParts_some]

theorem div_eq {t u : Term} (tFinite : t.coeff ≠ .nan) (uFinite : u.coeff ≠ .nan)
    (reaches : u.exponent.val ≤ t.exponent.val) :
    t.div u = .ok (make (t.coeff / u.coeff)
      ⟨t.exponent.val - u.exponent.val, (Nat.sub_le _ _).trans t.exponent.val_le⟩) := by
  have notNaN : ¬ (t.isNaN || u.isNaN) = true := by simp [tFinite, uFinite]
  have difference : t.exponent.sub? u.exponent = some
      ⟨t.exponent.val - u.exponent.val, (Nat.sub_le _ _).trans t.exponent.val_le⟩ := by
    rw [Exponent.sub?, if_pos reaches]
    exact dif_pos _
  rw [div, if_neg notNaN, difference, ofParts_some]

theorem mul_ok {t u product : Term} (multiplied : t.mul u = .ok product) :
    product.coeff = t.coeff * u.coeff ∧
      (product.coeff ≠ 0 → product.coeff ≠ .nan →
        product.exponent.val = t.exponent.val + u.exponent.val) := by
  unfold mul at multiplied
  split at multiplied
  · cases multiplied
    refine ⟨?_, fun _ finite => absurd rfl finite⟩
    rcases Bool.or_eq_true_iff.mp ‹_› with isNaN | isNaN
    · rw [isNaN_iff.mp isNaN, Coeff.nan_mul]; rfl
    · rw [isNaN_iff.mp isNaN, Coeff.mul_nan]; rfl
  · obtain ⟨coeff, exponent⟩ := ofParts_ok multiplied
    refine ⟨coeff, fun nonzero finite => ?_⟩
    have sum := exponent (coeff ▸ nonzero) (coeff ▸ finite)
    unfold Exponent.add? Exponent.ofNat? at sum
    split at sum
    · exact congrArg Exponent.val (Option.some.inj sum).symm
    · contradiction

theorem mul_nonzero {t u product : Term} (multiplied : t.mul u = .ok product)
    (tNonzero : t.coeff ≠ 0) (uNonzero : u.coeff ≠ 0) (finite : product.coeff ≠ .nan) :
    product.coeff ≠ 0 := by
  intro zero
  have coeff := (mul_ok multiplied).1
  rw [coeff] at finite zero
  obtain ⟨tFinite, uFinite, exactCoeff⟩ := Coeff.mul_finite finite
  rw [zero, Coeff.value_zero, zero_eq_mul, Coeff.value_eq_zero_iff tFinite,
    Coeff.value_eq_zero_iff uFinite] at exactCoeff
  exact exactCoeff.elim tNonzero uNonzero

theorem value_mul {t u product : Term} (multiplied : t.mul u = .ok product)
    (finite : product.coeff ≠ .nan) : product.value = t.value * u.value := by
  obtain ⟨coeff, exponent⟩ := mul_ok multiplied
  have exactCoeff : product.coeff.value = t.coeff.value * u.coeff.value := by
    rw [coeff] at finite ⊢
    exact (Coeff.mul_finite finite).2.2
  rw [value, value, value, monomial_mul_monomial, ← exactCoeff]
  by_cases zero : product.coeff = 0
  · rw [zero, Coeff.value_zero, monomial_zero_right, monomial_zero_right]
  · rw [exponent zero finite]

theorem antiderivative_eq {t anti : Term} (tFinite : t.coeff ≠ .nan) (nonzero : t.coeff ≠ 0)
    (integrated : t.antiderivative = .ok anti) :
    ∃ e : Exponent, e.val = t.exponent.val + 1 ∧
      anti = make (.ofRat (t.coeff.value / (t.exponent.val + 1))) e := by
  have nontrivial : ¬ (t.isNaN || t.isZero) = true := by simp [tFinite, nonzero]
  rw [antiderivative, if_neg nontrivial] at integrated
  cases next : t.exponent.succ? with
  | none => simp only [next] at integrated; contradiction
  | some e =>
      have successor : e.val = t.exponent.val + 1 := by
        unfold Exponent.succ? Exponent.ofNat? at next
        split at next
        · exact congrArg Exponent.val (Option.some.inj next).symm
        · contradiction
      have divisor : Coeff.ofInt e.val ≠ 0 := by
        intro zero
        have vanish := (Coeff.value_eq_zero_iff (exponent_finite e)).mpr zero
        rw [value_exponent, successor] at vanish
        exact Nat.cast_ne_zero.mpr (Nat.succ_ne_zero _) vanish
      simp only [next, Except.ok.injEq] at integrated
      refine ⟨e, successor, integrated.symm.trans ?_⟩
      rw [Coeff.div_eq tFinite (exponent_finite e) divisor, value_exponent, successor,
        Nat.cast_add_one]

theorem antiderivative_ok {t anti : Term} (integrated : t.antiderivative = .ok anti)
    (nonzero : t.coeff ≠ 0) (finite : anti.coeff ≠ .nan) :
    anti.coeff ≠ 0 ∧ anti.exponent.val = t.exponent.val + 1 ∧ anti.value = primitive t.value := by
  have tFinite : t.coeff ≠ .nan := by
    intro isNaN
    rw [antiderivative, if_pos (by simp [isNaN])] at integrated
    exact finite (Except.ok.inj integrated ▸ isNaN)
  obtain ⟨e, successor, rfl⟩ := antiderivative_eq tFinite nonzero integrated
  rw [make_coeff] at finite ⊢
  have quotient := Coeff.value_ofRat (Coeff.ofRat_ne_nan_iff.mp finite)
  have positive : (t.exponent.val + 1 : ℚ) ≠ 0 := Nat.cast_add_one_ne_zero _
  have kept : Coeff.ofRat (t.coeff.value / (t.exponent.val + 1)) ≠ 0 := by
    intro zero
    rw [zero, Coeff.value_zero, eq_comm, div_eq_zero_iff] at quotient
    exact nonzero ((Coeff.value_eq_zero_iff tFinite).mp (quotient.resolve_right positive))
  refine ⟨kept, by rw [make_exponent kept finite, successor], ?_⟩
  rw [value_make, quotient, value, primitive_monomial, successor]

end Term

end ExactPoly
