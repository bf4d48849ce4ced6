import ExactPoly.Text

namespace ExactPoly

/-! Quotients of two integers on their way to a coefficient.

Coefficient arithmetic first forms a quotient from products of the operands'
parts, then divides it by the greatest common divisor and moves the sign to the
numerator.  Each stage has a name here, so that bounds on intermediate values
can be stated for it.
-/

/-- A quotient that need be neither reduced nor bounded. -/
structure Ratio where
  num : Int
  den : Int
deriving DecidableEq

namespace Ratio

/-- The greatest common divisor of both parts; zero only when both parts are. -/
def commonFactor (r : Ratio) : Nat :=
  r.num.gcd r.den

def lowered (r : Ratio) : Ratio :=
  ⟨r.num / r.commonFactor, r.den / r.commonFactor⟩

def signed (r : Ratio) : Ratio :=
  if r.den < 0 then ⟨-r.num, -r.den⟩ else r

def lowest (r : Ratio) : Ratio :=
  r.lowered.signed

theorem commonFactor_pos {r : Ratio} (nonzero : r.den ≠ 0) : 0 < r.commonFactor :=
  Int.gcd_pos_iff.mpr (Or.inr nonzero)

theorem lowered_den_ne_zero {r : Ratio} (nonzero : r.den ≠ 0) : r.lowered.den ≠ 0 := by
  intro zero
  have divides : (r.commonFactor : Int) ∣ r.den := Int.gcd_dvd_right r.num r.den
  have restored := Int.ediv_mul_cancel divides
  change r.den / (r.commonFactor : Int) = 0 at zero
  rw [zero, Int.zero_mul] at restored
  exact nonzero restored.symm

theorem lowest_den_pos {r : Ratio} (nonzero : r.den ≠ 0) : 0 < r.lowest.den := by
  have lowered := lowered_den_ne_zero nonzero
  unfold lowest signed
  split
  · exact Int.neg_pos_of_neg ‹_›
  · omega

theorem lowest_coprime {r : Ratio} (nonzero : r.den ≠ 0) :
    r.lowest.num.natAbs.Coprime r.lowest.den.natAbs := by
  have lowered : r.lowered.num.gcd r.lowered.den = 1 :=
    Int.gcd_ediv_gcd_ediv_gcd (commonFactor_pos nonzero)
  unfold lowest signed
  split
  · simpa only [Nat.Coprime, Int.gcd, Int.natAbs_neg] using lowered
  · exact lowered

end Ratio

/-! Exact coefficients of fixed width.

A coefficient is a fraction in lowest terms whose parts fit signed 64-bit
words, or NaN.  Every operation computes the exact quotient first and yields
NaN only when that quotient does not exist or does not fit.
-/

/-- A signed 64-bit numerator and a positive signed 64-bit denominator. -/
def InRange (num den : Int) : Prop :=
  -9223372036854775808 ≤ num ∧ num ≤ 9223372036854775807 ∧ den ≤ 9223372036854775807

instance (num den : Int) : Decidable (InRange num den) :=
  inferInstanceAs (Decidable (_ ∧ _ ∧ _))

structure Fraction where
  num : Int
  den : Nat
  den_pos : 0 < den
  coprime : num.natAbs.Coprime den
  inRange : InRange num den
deriving DecidableEq

namespace Fraction

def ofInt (n : Int) (inRange : InRange n 1) : Fraction where
  num := n
  den := 1
  den_pos := Nat.one_pos
  coprime := Nat.coprime_one_right _
  inRange := inRange

def sum (a b : Fraction) : Ratio :=
  ⟨a.num * b.den + b.num * a.den, a.den * b.den⟩

def product (a b : Fraction) : Ratio :=
  ⟨a.num * b.num, a.den * b.den⟩

/-- The denominator is zero when `b` is. -/
def quotient (a b : Fraction) : Ratio :=
  ⟨a.num * b.den, a.den * b.num⟩

/-- The numeric order; denominators are positive, so it is that of the cross products. -/
def compare (a b : Fraction) : Ordering :=
  Ord.compare (a.num * b.den) (b.num * a.den)

end Fraction

inductive Coeff where
  | nan
  | finite (value : Fraction)
deriving DecidableEq

namespace Coeff

/-- Lowest terms with a positive denominator; NaN for a zero denominator and for
parts that do not fit. -/
def ofRatio (r : Ratio) : Coeff :=
  if nonzero : r.den ≠ 0 then
    if inRange : InRange r.lowest.num r.lowest.den then
      .finite {
        num := r.lowest.num
        den := r.lowest.den.natAbs
        den_pos := Int.natAbs_pos.mpr (Int.ne_of_gt (Ratio.lowest_den_pos nonzero))
        coprime := Ratio.lowest_coprime nonzero
        inRange := by
          rw [Int.natAbs_of_nonneg (Int.le_of_lt (Ratio.lowest_den_pos nonzero))]
          exact inRange }
    else .nan
  else .nan

def ofInt (n : Int) : Coeff :=
  if inRange : InRange n 1 then .finite (.ofInt n inRange) else .nan

instance : Zero Coeff := ⟨.finite (.ofInt 0 (by decide))⟩

instance : One Coeff := ⟨.finite (.ofInt 1 (by decide))⟩

instance : Inhabited Coeff := ⟨0⟩

def isNaN : Coeff → Bool
  | nan => true
  | finite _ => false

@[simp] theorem isNaN_iff {c : Coeff} : c.isNaN = true ↔ c = nan := by
  cases c <;> simp [isNaN]

def isZero (c : Coeff) : Bool :=
  c == 0

@[simp] theorem isZero_iff {c : Coeff} : c.isZero = true ↔ c = 0 :=
  beq_iff_eq

def isOne (c : Coeff) : Bool :=
  c == 1

def num? : Coeff → Option Int
  | nan => none
  | finite a => some a.num

def den? : Coeff → Option Nat
  | nan => none
  | finite a => some a.den

def isInteger (c : Coeff) : Bool :=
  c.den? == some 1

/-- The sign as `-1`, `0` or `1`; that of NaN is `0`. -/
def sign : Coeff → Int
  | nan => 0
  | finite a => a.num.sign

def isNegative (c : Coeff) : Bool :=
  decide (c.sign < 0)

def isPositive (c : Coeff) : Bool :=
  decide (0 < c.sign)

protected def add : Coeff → Coeff → Coeff
  | finite a, finite b => ofRatio (a.sum b)
  | _, _ => nan

/-- NaN for NaN and for the least numerator, whose negation does not fit. -/
protected def neg : Coeff → Coeff
  | nan => nan
  | finite a =>
      if least : a.num = -9223372036854775808 then nan
      else .finite {
        num := -a.num
        den := a.den
        den_pos := a.den_pos
        coprime := by rw [Int.natAbs_neg]; exact a.coprime
        inRange := by
          obtain ⟨lower, upper, bound⟩ := a.inRange
          exact ⟨by omega, by omega, bound⟩ }

protected def mul : Coeff → Coeff → Coeff
  | finite a, finite b => ofRatio (a.product b)
  | _, _ => nan

/-- A finite value over NaN is zero; NaN over anything, and anything over zero, is NaN. -/
protected def div : Coeff → Coeff → Coeff
  | nan, _ => nan
  | finite _, nan => 0
  | finite a, finite b => ofRatio (a.quotient b)

instance : Add Coeff := ⟨Coeff.add⟩

instance : Neg Coeff := ⟨Coeff.neg⟩

/-- Subtraction adds the negation, so it is NaN whenever the negation is. -/
instance : Sub Coeff := ⟨fun a b => a + -b⟩

instance : Mul Coeff := ⟨Coeff.mul⟩

instance : Div Coeff := ⟨Coeff.div⟩

def abs (c : Coeff) : Coeff :=
  if c.isNegative then -c else c

/-- The numeric order with NaN above every finite value. -/
protected def compare : Coeff → Coeff → Ordering
  | nan, nan => .eq
  | nan, finite _ => .gt
  | finite _, nan => .lt
  | finite a, finite b => a.compare b

instance : Ord Coeff := ⟨Coeff.compare⟩

instance : LE Coeff := leOfOrd

instance : LT Coeff := ltOfOrd

instance : Max Coeff := maxOfLe

instance : Min Coeff := minOfLe

end Coeff

namespace Coeff

/-! The text of a coefficient: `NaN`, `n` or `n/d`.

The printed form is in lowest terms.  The reader takes any two integers around
the first slash, and a zero denominator reads as NaN.
-/

inductive ReadError where
  | empty
  | explicitPlus (token : String)
  | invalidInteger (token : String) (cause : Text.IntegerError)
deriving DecidableEq

def ReadError.message : ReadError → String
  | empty => "empty rational literal"
  | explicitPlus token => "unexpected `+` in rational literal `" ++ token ++ "`"
  | invalidInteger token _ => "invalid integer `" ++ token ++ "` in rational literal"

def nanText : List Char := ['N', 'a', 'N']

/-- A numerator or denominator; only a minus sign is allowed. -/
def readPart (token : List Char) : Except ReadError Int :=
  if token.head? = some '+' then .error (.explicitPlus (String.ofList token))
  else (Text.readInteger token).mapError (.invalidInteger (String.ofList token))

def read (text : List Char) : Except ReadError Coeff :=
  if text = [] then .error .empty
  else if text = nanText then .ok nan
  else
    match text.dropWhile (fun c => decide (c ≠ '/')) with
    | [] => (readPart text).map ofInt
    | _ :: denominator => do
        let num ← readPart (text.takeWhile (fun c => decide (c ≠ '/')))
        let den ← readPart denominator
        return ofRatio ⟨num, den⟩

def print : Coeff → List Char
  | nan => nanText
  | finite a =>
      if a.den = 1 then Text.printInteger a.num
      else Text.printInteger a.num ++ '/' :: Text.printNatural a.den

instance : ToString Coeff := ⟨fun c => String.ofList c.print⟩

end Coeff

end ExactPoly
