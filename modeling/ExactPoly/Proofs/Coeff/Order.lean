import Mathlib.Algebra.Order.Ring.Cast
import Mathlib.Algebra.Order.Ring.Rat
import Mathlib.Data.Int.Cast.Lemmas
import Mathlib.Data.Nat.Cast.Order.Ring
import Mathlib.Order.WithBot
import ExactPoly.Proofs.Coeff.Value

namespace ExactPoly

/-! Intermediate values in 128 bits.

Numerators lie between `-2^63` and `2^63 - 1` and denominators between `1` and
`2^63 - 1`, so that the product of a numerator and a denominator fits a signed
128-bit word with room to spare.
-/

def FitsWide (n : Int) : Prop :=
  -170141183460469231731687303715884105728 ≤ n ∧ n < 170141183460469231731687303715884105728

instance (n : Int) : Decidable (FitsWide n) :=
  inferInstanceAs (Decidable (_ ∧ _))

theorem fitsWide_of_natAbs {n : Int}
    (bounded : n.natAbs < 170141183460469231731687303715884105728) : FitsWide n := by
  unfold FitsWide
  omega

namespace Fraction

theorem natAbs_num_le (a : Fraction) : a.num.natAbs ≤ 9223372036854775808 := by
  obtain ⟨lower, upper, -⟩ := a.inRange
  omega

theorem den_le (a : Fraction) : a.den ≤ 9223372036854775807 := by
  obtain ⟨-, -, bound⟩ := a.inRange
  omega

theorem natAbs_cross_le (a b : Fraction) :
    (a.num * b.den).natAbs ≤ 9223372036854775808 * 9223372036854775807 := by
  rw [Int.natAbs_mul, Int.natAbs_natCast]
  exact Nat.mul_le_mul a.natAbs_num_le b.den_le

/-- Each side of a comparison of cross products. -/
theorem fitsWide_cross (a b : Fraction) : FitsWide (a.num * b.den) :=
  fitsWide_of_natAbs (Nat.lt_of_le_of_lt (a.natAbs_cross_le b) (by decide))

end Fraction

/-! The order of coefficients.

Comparing cross products compares values, and NaN stands above all of them.  So the
comparison is that of the rational numbers with a greatest element added, and its laws
are the laws of that order.
-/

namespace Fraction

theorem value_mul_dens (a b : Fraction) :
    a.value * (a.den * b.den) = ((a.num * b.den : Int) : ℚ) := by
  have aDen : (a.den : ℚ) ≠ 0 := Nat.cast_ne_zero.mpr (Nat.ne_of_gt a.den_pos)
  rw [a.value_eq_div, ← mul_assoc, div_mul_cancel₀ _ aDen, Int.cast_mul, Int.cast_natCast]

theorem compare_eq (a b : Fraction) : a.compare b = Ord.compare a.value b.value := by
  have denominators : (0 : ℚ) < a.den * b.den :=
    mul_pos (Nat.cast_pos.mpr a.den_pos) (Nat.cast_pos.mpr b.den_pos)
  calc a.compare b = Ord.compare (a.num * b.den) (b.num * a.den) := rfl
    _ = Ord.compare ((a.num * b.den : Int) : ℚ) ((b.num * a.den : Int) : ℚ) := by
        rw [← cmp_eq_compare, ← cmp_eq_compare, Int.cast_strictMono.cmp_map_eq]
    _ = Ord.compare (a.value * (a.den * b.den)) (b.value * (a.den * b.den)) := by
        rw [a.value_mul_dens, mul_comm (a.den : ℚ), b.value_mul_dens]
    _ = Ord.compare a.value b.value := by
        rw [← cmp_eq_compare, ← cmp_eq_compare,
          (strictMono_mul_right_of_pos denominators).cmp_map_eq]

end Fraction

namespace Coeff

/-- The place of a coefficient in the order. -/
def rank : Coeff → WithTop ℚ
  | nan => ⊤
  | finite a => a.value

theorem rank_injective {c d : Coeff} (same : c.rank = d.rank) : c = d := by
  cases c with
  | nan =>
      cases d with
      | nan => rfl
      | finite b => exact absurd same (WithTop.top_ne_coe)
  | finite a =>
      cases d with
      | nan => exact absurd same (WithTop.coe_ne_top)
      | finite b => exact congrArg finite (Fraction.value_injective (WithTop.coe_injective same))

theorem compare_eq (c d : Coeff) : compare c d = compare c.rank d.rank := by
  cases c with
  | nan =>
      cases d with
      | nan => exact (compare_eq_iff_eq.mpr rfl).symm
      | finite b => exact (compare_gt_iff_gt.mpr (WithTop.coe_lt_top b.value)).symm
  | finite a =>
      cases d with
      | nan => exact (compare_lt_iff_lt.mpr (WithTop.coe_lt_top a.value)).symm
      | finite b =>
          rw [rank, rank, ← cmp_eq_compare, WithTop.coe_strictMono.cmp_map_eq, cmp_eq_compare]
          exact a.compare_eq b

instance : Std.TransOrd Coeff where
  eq_swap {c d} := by
    rw [compare_eq c d, compare_eq d c]
    exact Std.OrientedOrd.eq_swap
  isLE_trans {c d e} below above := by
    rw [compare_eq] at below above ⊢
    exact Std.TransOrd.isLE_trans below above

instance : Std.LawfulEqOrd Coeff where
  compare_self {c} := by
    rw [compare_eq]
    exact Std.ReflOrd.compare_self
  eq_of_compare {c d} same := by
    rw [compare_eq] at same
    exact rank_injective (Std.LawfulEqOrd.eq_of_compare same)

theorem compare_total (c d : Coeff) : (compare c d).isLE = true ∨ (compare d c).isLE = true := by
  rw [Std.OrientedOrd.eq_swap (a := d)]
  cases compare c d with
  | lt | eq => exact .inl rfl
  | gt => exact .inr rfl

/-- Coefficients are ordered by their values, computed without loss, with NaN above all of
them.  The order is total, and coefficients of equal rank are the same. -/
theorem numeric_total_order (a b : Fraction) (c d e : Coeff) :
    (FitsWide (a.num * b.den) ∧ FitsWide (b.num * a.den) ∧
        compare (finite a) (finite b) = compare a.value b.value) ∧
      (compare nan (finite a) = .gt ∧ compare (finite a) nan = .lt ∧ compare nan nan = .eq) ∧
      compare d c = (compare c d).swap ∧
      ((compare c d).isLE = true → (compare d e).isLE = true → (compare c e).isLE = true) ∧
      ((compare c d).isLE = true ∨ (compare d c).isLE = true) ∧
      (compare c d = .eq ↔ c = d) :=
  ⟨⟨a.fitsWide_cross b, b.fitsWide_cross a, a.compare_eq b⟩, ⟨rfl, rfl, rfl⟩,
    Std.OrientedOrd.eq_swap, Std.TransOrd.isLE_trans, compare_total c d,
    Std.LawfulEqOrd.compare_eq_iff_eq⟩

/-- Neighbours whose cross products differ by one, below NaN. -/
theorem neighbours_ordered :
    let a : Fraction := ⟨9223372036854775807, 9223372036854775806, by decide, by decide, by decide⟩
    let b : Fraction := ⟨9223372036854775806, 9223372036854775805, by decide, by decide, by decide⟩
    compare (finite a) (finite b) = .lt ∧ compare (finite b) nan = .lt ∧
      (compare (finite a) nan).isLE = true ∧ compare a.value b.value = .lt := by
  intro a b
  have less : compare (finite a) (finite b) = .lt := by decide
  have below : compare (finite b) nan = .lt := rfl
  obtain ⟨⟨-, -, numeric⟩, -, -, trans, -⟩ := numeric_total_order a b (finite a) (finite b) nan
  exact ⟨less, below, trans (by rw [less]; rfl) (by rw [below]; rfl), numeric.symm.trans less⟩

end Coeff

end ExactPoly
