import ExactPoly.Proofs.Coeff.Order
import ExactPoly.Proofs.Success

namespace ExactPoly

/-! Coefficient arithmetic on words that trap.

Here every intermediate value is a signed 128-bit word, and an operation on words traps
where its exact result is not one.  The operations on coefficients never trap, since
stored parts are far enough from the bounds, so they are the exact ones.
-/

/-- Why an operation on words has no result. -/
inductive Trap where
  | overflow
  | divisionByZero
deriving DecidableEq

namespace Wide

def fit (n : Int) : Except Trap Int :=
  if FitsWide n then .ok n else .error .overflow

def add (a b : Int) : Except Trap Int :=
  fit (a + b)

def mul (a b : Int) : Except Trap Int :=
  fit (a * b)

def neg (a : Int) : Except Trap Int :=
  fit (-a)

def abs (a : Int) : Except Trap Int :=
  fit a.natAbs

/-- The quotient rounded toward zero. -/
def div (a b : Int) : Except Trap Int :=
  if b = 0 then .error .divisionByZero else fit (a.tdiv b)

/-- The greatest common divisor, taken of the absolute values. -/
def gcd (a b : Int) : Except Trap Int := do
  let m ← abs a
  let n ← abs b
  return m.gcd n

/-- The absolute value is a word too, which that of the least word is not. -/
def AbsFits (n : Int) : Prop :=
  n.natAbs < 170141183460469231731687303715884105728

variable {a b n : Int} {bound : Nat}

theorem absFits_of_le (le : n.natAbs ≤ bound)
    (below : bound < 170141183460469231731687303715884105728) : AbsFits n :=
  Nat.lt_of_le_of_lt le below

theorem AbsFits.neg (fits : AbsFits n) : AbsFits (-n) := by
  rwa [AbsFits, Int.natAbs_neg]

/-- A quotient is no further from zero than what is divided. -/
theorem AbsFits.ediv (fits : AbsFits a) (b : Int) : AbsFits (a / b) :=
  absFits_of_le (Int.natAbs_ediv_le_natAbs a b) fits

theorem fit_eq (fits : AbsFits n) : fit n = .ok n :=
  if_pos (fitsWide_of_natAbs fits)

theorem neg_eq (fits : AbsFits n) : neg n = .ok (-n) :=
  fit_eq fits.neg

theorem abs_eq (fits : AbsFits n) : abs n = .ok n.natAbs :=
  fit_eq (by rwa [AbsFits, Int.natAbs_natCast])

theorem div_eq (fits : AbsFits a) (nonzero : b ≠ 0) (divides : b ∣ a) :
    div a b = .ok (a / b) := by
  rw [div, if_neg nonzero, Int.tdiv_eq_ediv_of_dvd divides]
  exact fit_eq (fits.ediv b)

theorem gcd_eq (aFits : AbsFits a) (bFits : AbsFits b) : gcd a b = .ok (a.gcd b) := by
  rw [gcd, abs_eq aFits, ok_bind, abs_eq bFits, ok_bind, Int.gcd_natCast_natCast]
  rfl

end Wide

namespace Ratio

structure PartsFit (r : Ratio) : Prop where
  num : Wide.AbsFits r.num
  den : Wide.AbsFits r.den

theorem PartsFit.lowered {r : Ratio} (fits : r.PartsFit) : r.lowered.PartsFit :=
  ⟨fits.num.ediv _, fits.den.ediv _⟩

namespace Trapping

def lowered (r : Ratio) : Except Trap Ratio := do
  let factor ← Wide.gcd r.num r.den
  let num ← Wide.div r.num factor
  let den ← Wide.div r.den factor
  return ⟨num, den⟩

def signed (r : Ratio) : Except Trap Ratio :=
  if r.den < 0 then do
    let num ← Wide.neg r.num
    let den ← Wide.neg r.den
    return ⟨num, den⟩
  else .ok r

def lowest (r : Ratio) : Except Trap Ratio := do
  let reduced ← lowered r
  signed reduced

variable {r : Ratio}

theorem lowered_eq (fits : r.PartsFit) (nonzero : r.den ≠ 0) : lowered r = .ok r.lowered := by
  have factor : (r.num.gcd r.den : Int) ≠ 0 :=
    Int.natCast_ne_zero.mpr (Nat.ne_of_gt (commonFactor_pos nonzero))
  rw [lowered, Wide.gcd_eq fits.num fits.den, ok_bind,
    Wide.div_eq fits.num factor (Int.gcd_dvd_left r.num r.den), ok_bind,
    Wide.div_eq fits.den factor (Int.gcd_dvd_right r.num r.den)]
  rfl

theorem signed_eq (fits : r.PartsFit) : signed r = .ok r.signed := by
  unfold signed Ratio.signed
  split
  · rw [Wide.neg_eq fits.num, ok_bind, Wide.neg_eq fits.den]
    rfl
  · rfl

theorem lowest_eq (fits : r.PartsFit) (nonzero : r.den ≠ 0) : lowest r = .ok r.lowest := by
  rw [lowest, lowered_eq fits nonzero, ok_bind]
  exact signed_eq fits.lowered

-- Without the bound: the least word has no absolute value.
example : lowest ⟨-170141183460469231731687303715884105728, 1⟩ = .error .overflow := by
  rfl

end Trapping

end Ratio

namespace Fraction

namespace Trapping

def sum (a b : Fraction) : Except Trap Ratio := do
  let left ← Wide.mul a.num b.den
  let right ← Wide.mul b.num a.den
  let num ← Wide.add left right
  let den ← Wide.mul a.den b.den
  return ⟨num, den⟩

def product (a b : Fraction) : Except Trap Ratio := do
  let num ← Wide.mul a.num b.num
  let den ← Wide.mul a.den b.den
  return ⟨num, den⟩

def quotient (a b : Fraction) : Except Trap Ratio := do
  let num ← Wide.mul a.num b.den
  let den ← Wide.mul a.den b.num
  return ⟨num, den⟩

def compare (a b : Fraction) : Except Trap Ordering := do
  let left ← Wide.mul a.num b.den
  let right ← Wide.mul b.num a.den
  return Ord.compare left right

end Trapping

theorem natAbs_dens_le (a b : Fraction) :
    (a.den * b.den : Int).natAbs ≤ 9223372036854775807 * 9223372036854775807 := by
  rw [Int.natAbs_mul, Int.natAbs_natCast, Int.natAbs_natCast]
  exact Nat.mul_le_mul a.den_le b.den_le

theorem natAbs_nums_le (a b : Fraction) :
    (a.num * b.num).natAbs ≤ 9223372036854775808 * 9223372036854775808 := by
  rw [Int.natAbs_mul]
  exact Nat.mul_le_mul a.natAbs_num_le b.natAbs_num_le

/-- The largest intermediate value, `2^127 - 2^64`.  It is a word only because a
denominator is less than `2^63`. -/
theorem natAbs_sum_num_le (a b : Fraction) :
    (a.sum b).num.natAbs ≤ 170141183460469231713240559642174554112 :=
  calc (a.num * b.den + b.num * a.den).natAbs
      ≤ (a.num * b.den).natAbs + (b.num * a.den).natAbs := Int.natAbs_add_le ..
    _ ≤ 9223372036854775808 * 9223372036854775807 + 9223372036854775808 * 9223372036854775807 :=
        Nat.add_le_add (a.natAbs_cross_le b) (b.natAbs_cross_le a)
    _ = 170141183460469231713240559642174554112 := by decide

example :
    let least : Fraction :=
      ⟨-9223372036854775808, 9223372036854775807, by decide, by decide, by decide⟩
    (least.sum least).num.natAbs = 170141183460469231713240559642174554112 := by
  decide

theorem sum_partsFit (a b : Fraction) : (a.sum b).PartsFit where
  num := Wide.absFits_of_le (a.natAbs_sum_num_le b) (by decide)
  den := Wide.absFits_of_le (a.natAbs_dens_le b) (by decide)

theorem product_partsFit (a b : Fraction) : (a.product b).PartsFit where
  num := Wide.absFits_of_le (a.natAbs_nums_le b) (by decide)
  den := Wide.absFits_of_le (a.natAbs_dens_le b) (by decide)

theorem quotient_partsFit (a b : Fraction) : (a.quotient b).PartsFit where
  num := Wide.absFits_of_le (a.natAbs_cross_le b) (by decide)
  den := by
    change Wide.AbsFits (a.den * b.num)
    rw [Int.mul_comm]
    exact Wide.absFits_of_le (b.natAbs_cross_le a) (by decide)

namespace Trapping

theorem cross_eq (a b : Fraction) : Wide.mul a.num b.den = .ok (a.num * b.den) :=
  if_pos (a.fitsWide_cross b)

theorem sum_eq (a b : Fraction) : sum a b = .ok (a.sum b) := by
  have num : Wide.add (a.num * b.den) (b.num * a.den) = .ok (a.sum b).num :=
    Wide.fit_eq (a.sum_partsFit b).num
  have den : Wide.mul a.den b.den = .ok (a.sum b).den := Wide.fit_eq (a.sum_partsFit b).den
  rw [sum, cross_eq a b, ok_bind, cross_eq b a, ok_bind, num, ok_bind, den]
  rfl

theorem product_eq (a b : Fraction) : product a b = .ok (a.product b) := by
  have num : Wide.mul a.num b.num = .ok (a.product b).num := Wide.fit_eq (a.product_partsFit b).num
  have den : Wide.mul a.den b.den = .ok (a.product b).den := Wide.fit_eq (a.product_partsFit b).den
  rw [product, num, ok_bind, den]
  rfl

theorem quotient_eq (a b : Fraction) : quotient a b = .ok (a.quotient b) := by
  have den : Wide.mul a.den b.num = .ok (a.quotient b).den :=
    Wide.fit_eq (a.quotient_partsFit b).den
  rw [quotient, cross_eq a b, ok_bind, den]
  rfl

theorem compare_eq (a b : Fraction) : compare a b = .ok (a.compare b) := by
  rw [compare, cross_eq a b, ok_bind, cross_eq b a]
  rfl

end Trapping

end Fraction

namespace Coeff

namespace Trapping

/-- A quotient in lowest terms as a coefficient; NaN for parts that do not fit. -/
def narrow (r : Ratio) : Coeff :=
  if lowest : 0 < r.den ∧ r.num.natAbs.Coprime r.den.natAbs then
    if inRange : InRange r.num r.den then
      .finite {
        num := r.num
        den := r.den.natAbs
        den_pos := Int.natAbs_pos.mpr (Int.ne_of_gt lowest.1)
        coprime := lowest.2
        inRange := by
          rw [Int.natAbs_of_nonneg (Int.le_of_lt lowest.1)]
          exact inRange }
    else .nan
  else .nan

def ofRatio (r : Ratio) : Except Trap Coeff :=
  if r.den = 0 then .ok .nan else (Ratio.Trapping.lowest r).map narrow

def add : Coeff → Coeff → Except Trap Coeff
  | .finite a, .finite b => Fraction.Trapping.sum a b >>= ofRatio
  | _, _ => .ok .nan

/-- A negation needs no wider word: it fits, or it is NaN. -/
def sub (c d : Coeff) : Except Trap Coeff :=
  add c (-d)

def mul : Coeff → Coeff → Except Trap Coeff
  | .finite a, .finite b => Fraction.Trapping.product a b >>= ofRatio
  | _, _ => .ok .nan

def div : Coeff → Coeff → Except Trap Coeff
  | .nan, _ => .ok .nan
  | .finite _, .nan => .ok 0
  | .finite a, .finite b => Fraction.Trapping.quotient a b >>= ofRatio

def compare : Coeff → Coeff → Except Trap Ordering
  | .nan, .nan => .ok .eq
  | .nan, .finite _ => .ok .gt
  | .finite _, .nan => .ok .lt
  | .finite a, .finite b => Fraction.Trapping.compare a b

theorem narrow_lowest {r : Ratio} (nonzero : r.den ≠ 0) :
    narrow r.lowest = Coeff.ofRatio r := by
  rw [narrow, dif_pos ⟨Ratio.lowest_den_pos nonzero, Ratio.lowest_coprime nonzero⟩,
    Coeff.ofRatio, dif_pos nonzero]

theorem ofRatio_eq {r : Ratio} (fits : r.PartsFit) : ofRatio r = .ok (Coeff.ofRatio r) := by
  unfold ofRatio
  split
  · rename_i zero
    rw [Coeff.ofRatio, dif_neg (not_not_intro zero)]
  · rename_i nonzero
    rw [Ratio.Trapping.lowest_eq fits nonzero, ← narrow_lowest nonzero]
    rfl

theorem ofRatio_words (n d : Int64) :
    ofRatio ⟨n.toInt, d.toInt⟩ = .ok (Coeff.ofRatio ⟨n.toInt, d.toInt⟩) := by
  have fits (word : Int64) : Wide.AbsFits word.toInt := by
    have lower := word.le_toInt
    have upper := word.toInt_lt
    unfold Wide.AbsFits
    omega
  exact ofRatio_eq ⟨fits n, fits d⟩

theorem add_eq (c d : Coeff) : add c d = .ok (c + d) := by
  cases c with
  | nan => rfl
  | finite a =>
      cases d with
      | nan => rfl
      | finite b =>
          rw [add, Fraction.Trapping.sum_eq, ok_bind]
          exact ofRatio_eq (a.sum_partsFit b)

theorem sub_eq (c d : Coeff) : sub c d = .ok (c - d) :=
  add_eq c (-d)

theorem mul_eq (c d : Coeff) : mul c d = .ok (c * d) := by
  cases c with
  | nan => rfl
  | finite a =>
      cases d with
      | nan => rfl
      | finite b =>
          rw [mul, Fraction.Trapping.product_eq, ok_bind]
          exact ofRatio_eq (a.product_partsFit b)

theorem div_eq (c d : Coeff) : div c d = .ok (c / d) := by
  cases c with
  | nan => rfl
  | finite a =>
      cases d with
      | nan => rfl
      | finite b =>
          rw [div, Fraction.Trapping.quotient_eq, ok_bind]
          exact ofRatio_eq (a.quotient_partsFit b)

theorem compare_eq (c d : Coeff) : compare c d = .ok (Ord.compare c d) := by
  cases c with
  | nan => cases d <;> rfl
  | finite a =>
      cases d with
      | nan => rfl
      | finite b => exact Fraction.Trapping.compare_eq a b

end Trapping

end Coeff

end ExactPoly
