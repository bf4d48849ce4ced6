import ExactPoly.Poly

namespace ExactPoly

/-! Faults: the conditions under which an operation has no result at all.

A fault is not an error of the input.  It ends the computation that meets it,
and no later step can observe a state after it.
-/

inductive Fault where
  /-- Two terms of unequal exponents have no sum that is a term. -/
  | unequalExponents (left right : Exponent)
  | productExponent (left right : Term)
  | quotientExponent (left right : Term)
  | antiderivativeExponent (term : Term)
  /-- A division step left the degree of the remaining dividend as it was. -/
  | degreeKept (remaining : Poly)
  /-- The position after an address does not fit a 64-bit word. -/
  | addressOverflow
deriving DecidableEq

def Fault.message : Fault → String
  | unequalExponents left right =>
      "assertion `left == right` failed: cannot add terms with different exponents\n  left: " ++
        toString left.val ++ "\n right: " ++ toString right.val
  | productExponent left right =>
      toString left ++ " * " ++ toString right ++ " overflows the exponent"
  | quotientExponent left right =>
      toString left ++ " / " ++ toString right ++ " has a negative exponent"
  | antiderivativeExponent term =>
      "antiderivative of " ++ toString term ++ " overflows the exponent"
  | degreeKept remaining =>
      "division step did not lower the degree of " ++ toString remaining
  | addressOverflow => "attempt to add with overflow"

namespace Term

/-! Arithmetic of single terms.

Only results whose exponent cannot be formed are faults.  A coefficient that
does not fit makes the result the NaN term, whatever the exponents.
-/

/-- NaN absorbs, a zero operand yields the other one, and otherwise the
exponents have to agree. -/
def add (t u : Term) : Except Fault Term :=
  if t.isNaN || u.isNaN then .ok nan
  else if t.isZero then .ok u
  else if u.isZero then .ok t
  else if t.exponent = u.exponent then .ok (make (t.coeff + u.coeff) t.exponent)
  else .error (.unequalExponents t.exponent u.exponent)

def sub (t u : Term) : Except Fault Term :=
  t.add u.neg

/-- A term of the given coefficient, whose exponent matters only if the
coefficient is neither zero nor NaN. -/
def ofParts (coeff : Coeff) (exponent? : Option Exponent) (fault : Fault) :
    Except Fault Term :=
  if coeff.isZero || coeff.isNaN then .ok (make coeff 0)
  else
    match exponent? with
    | some exponent => .ok (make coeff exponent)
    | none => .error fault

def mul (t u : Term) : Except Fault Term :=
  if t.isNaN || u.isNaN then .ok nan
  else ofParts (t.coeff * u.coeff) (t.exponent.add? u.exponent) (.productExponent t u)

def div (t u : Term) : Except Fault Term :=
  if t.isNaN || u.isNaN then .ok nan
  else ofParts (t.coeff / u.coeff) (t.exponent.sub? u.exponent) (.quotientExponent t u)

/-- The antiderivative `(c/(e+1))*x^(e+1)`; zero and NaN are their own. -/
def antiderivative (t : Term) : Except Fault Term :=
  if t.isNaN || t.isZero then .ok t
  else
    match t.exponent.succ? with
    | some exponent => .ok (make (t.coeff / Coeff.ofInt exponent.val) exponent)
    | none => .error (.antiderivativeExponent t)

end Term

namespace Poly

/-! Products, quotients and antiderivatives of polynomials. -/

/-- All products of a term of `left` with a term of `right`, the left term
varying slowest. -/
def products (left right : List Term) : Except Fault (List Term) := do
  let rows ← left.mapM (fun t => right.mapM t.mul)
  return rows.flatten

def mul (p q : Poly) : Except Fault Poly :=
  if p.isNaN || q.isNaN then .ok nan
  else (products p.terms q.terms).map (fun terms => ofTerms (mergeAll [] terms))

/-- One more than the leading exponent, or zero without terms. -/
def height (p : Poly) : Nat :=
  match p.leading? with
  | none => 0
  | some top => top.exponent.val + 1

/-- The dividend that remains after subtracting `divisor * q`. -/
def reduce (remaining divisor : Poly) (q : Term) : Except Fault Poly :=
  (divisor.mul (ofTerm q)).map remaining.sub

/-- Long division by a divisor with leading term `lead`.  Each step cancels the
leading term of what remains and merges one more term into the quotient; a step
that does not lower the leading exponent is a fault. -/
def divisionLoop (divisor : Poly) (lead : Term) (remaining : Poly) (quotient : List Term) :
    Except Fault (List Term) :=
  match remaining.leading? with
  | none => .ok quotient
  | some top =>
      if top.exponent.val < lead.exponent.val then .ok quotient
      else
        match top.div lead with
        | .error fault => .error fault
        | .ok q =>
            match reduce remaining divisor q with
            | .error fault => .error fault
            | .ok next =>
                if next.height < remaining.height then
                  divisionLoop divisor lead next (mergeTerm quotient q)
                else .error (.degreeKept remaining)
termination_by remaining.height

/-- The quotient of long division; the remainder is dropped.  NaN operands and
a divisor without terms give NaN. -/
def div (p divisor : Poly) : Except Fault Poly :=
  if p.isNaN || divisor.isNaN then .ok nan
  else
    match divisor.leading? with
    | none => .ok nan
    | some lead => (divisionLoop divisor lead p []).map ofTerms

def antiderivative (p : Poly) (constant : Coeff) : Except Fault Poly :=
  if p.isNaN || constant.isNaN then .ok nan
  else
    (p.terms.mapM Term.antiderivative).map
      (fun terms => ofTerms (mergeTerm terms (Term.make constant 0)))

end Poly

/-! Values of polynomials in floating point.

Coefficients are converted part by part, powers are those of the float library,
and a sum starts from negative zero and runs from the highest exponent down.
-/

def Coeff.toFloat : Coeff → Float
  | .nan => 0.0 / 0.0
  | .finite a => Float.ofInt a.num / Float.ofNat a.den

def Term.eval (t : Term) (x : Float) : Float :=
  if t.isNaN then 0.0 / 0.0
  else t.coeff.toFloat * x.pow (Float.ofNat t.exponent.val)

namespace Poly

def eval (p : Poly) (x : Float) : Float :=
  if p.isNaN then 0.0 / 0.0
  else p.terms.foldl (fun sum t => sum + t.eval x) (-0.0)

/-- The definite integral; NaN for a NaN polynomial or a bound that is not finite,
without forming an antiderivative. -/
def integrate (p : Poly) (lower upper : Float) : Except Fault Float :=
  if p.isNaN || !lower.isFinite || !upper.isFinite then .ok (0.0 / 0.0)
  else (p.antiderivative 0).map (fun anti => anti.eval upper - anti.eval lower)

end Poly

end ExactPoly
