import Mathlib.Algebra.Polynomial.FieldDivision
import ExactPoly.Proofs.Poly.Reachable

namespace ExactPoly

open Polynomial

/-! Whole expressions: exact or NaN.

An expression is evaluated twice, by the operations on stored polynomials and in
the ring of polynomials over the rational numbers.  Without division the two
agree whenever the first is not NaN, and NaN anywhere inside an expression is
NaN outside.
-/

inductive Unary where
  | neg
  | derivative
  | antiderivative (constant : Coeff)

inductive Binary where
  | add
  | sub
  | mul
  | div

inductive Expression where
  | leaf (p : Poly)
  | unary (op : Unary) (operand : Expression)
  | binary (op : Binary) (left right : Expression)

namespace Unary

def apply : Unary → Poly → Except Fault Poly
  | neg, p => .ok p.neg
  | derivative, p => .ok p.derivative
  | antiderivative constant, p => p.antiderivative constant

noncomputable def exact : Unary → ℚ[X] → ℚ[X]
  | neg, f => -f
  | derivative, f => Polynomial.derivative f
  | antiderivative constant, f => primitive f + C constant.value

end Unary

namespace Binary

def apply : Binary → Poly → Poly → Except Fault Poly
  | add, p, q => .ok (p.add q)
  | sub, p, q => .ok (p.sub q)
  | mul, p, q => p.mul q
  | div, p, q => p.div q

noncomputable def exact : Binary → ℚ[X] → ℚ[X] → ℚ[X]
  | add, f, g => f + g
  | sub, f, g => f - g
  | mul, f, g => f * g
  | div, f, g => f / g

end Binary

namespace Expression

/-- The value on stored polynomials; a fault at any node is one of the whole. -/
def eval : Expression → Except Fault Poly
  | leaf p => .ok p
  | unary op operand => do op.apply (← operand.eval)
  | binary op left right => do op.apply (← left.eval) (← right.eval)

noncomputable def exact : Expression → ℚ[X]
  | leaf p => p.value
  | unary op operand => op.exact operand.exact
  | binary op left right => op.exact left.exact right.exact

def leaves : Expression → List Poly
  | leaf p => [p]
  | unary _ operand => operand.leaves
  | binary _ left right => left.leaves ++ right.leaves

/-- The expression itself and all expressions inside it. -/
def subexpressions : Expression → List Expression
  | leaf p => [leaf p]
  | unary op operand => unary op operand :: operand.subexpressions
  | binary op left right => binary op left right :: (left.subexpressions ++ right.subexpressions)

def DivFree : Expression → Prop
  | leaf _ => True
  | unary _ operand => operand.DivFree
  | binary op left right => op ≠ .div ∧ left.DivFree ∧ right.DivFree

/-- Leaves are polynomials that some history of operations has produced. -/
def Grounded (e : Expression) : Prop :=
  ∀ p ∈ e.leaves, Poly.Reachable p

/-- NaN turns up inside: as a leaf, as an intermediate or final result, or as a
constant of integration. -/
def MeetsNaN (e : Expression) : Prop :=
  ∃ s ∈ e.subexpressions,
    (∃ p, s.eval = .ok p ∧ p.isNaN = true) ∨ ∃ body, s = unary (.antiderivative .nan) body

end Expression

variable {p q r : Poly} {constant : Coeff}

namespace Unary

theorem apply_reachable {op : Unary} (reachable : Poly.Reachable p)
    (applied : op.apply p = .ok r) : Poly.Reachable r := by
  cases op with
  | neg => cases applied; exact reachable.neg
  | derivative => cases applied; exact reachable.derivative
  | antiderivative constant => exact reachable.antiderivative constant applied

theorem apply_nan (op : Unary) : op.apply .nan = .ok .nan := by
  cases op with
  | neg => rfl
  | derivative => rfl
  | antiderivative constant => exact Poly.antiderivative_of_isNaN (.inl rfl)

theorem apply_finite {op : Unary} (wellFormed : p.WellFormed) (applied : op.apply p = .ok r)
    (finite : r.isNaN = false) : p.isNaN = false ∧ r.value = op.exact p.value := by
  cases op with
  | neg => cases applied; exact Poly.neg_finite finite
  | derivative => cases applied; exact Poly.derivative_finite finite
  | antiderivative constant =>
      obtain ⟨pFinite, -, value⟩ := Poly.antiderivative_finite wellFormed applied finite
      exact ⟨pFinite, value⟩

end Unary

namespace Binary

theorem apply_reachable {op : Binary} (left : Poly.Reachable p) (right : Poly.Reachable q)
    (applied : op.apply p q = .ok r) : Poly.Reachable r := by
  cases op with
  | add => cases applied; exact left.add right
  | sub => cases applied; exact left.sub right
  | mul => exact left.mul right applied
  | div => exact left.div right applied

theorem apply_nan {op : Binary} (isNaN : p = .nan ∨ q = .nan) : op.apply p q = .ok .nan := by
  have either : p.isNaN = true ∨ q.isNaN = true := by
    rcases isNaN with rfl | rfl
    · exact .inl rfl
    · exact .inr rfl
  cases op with
  | add => exact congrArg Except.ok (Poly.add_of_isNaN either)
  | sub =>
      refine congrArg Except.ok (Poly.add_of_isNaN (either.imp_right fun qNaN => ?_))
      rw [Poly.neg_of_isNaN qNaN]
      rfl
  | mul => exact Poly.mul_of_isNaN either
  | div => exact Poly.div_of_isNaN either

theorem apply_finite {op : Binary} (noDiv : op ≠ .div) (applied : op.apply p q = .ok r)
    (finite : r.isNaN = false) :
    p.isNaN = false ∧ q.isNaN = false ∧ r.value = op.exact p.value q.value := by
  cases op with
  | add => cases applied; exact Poly.add_finite finite
  | sub => cases applied; exact Poly.sub_finite finite
  | mul => exact Poly.mul_finite applied finite
  | div => contradiction

end Binary

namespace Expression

variable {e f s : Expression}

theorem grounded_binary {op : Binary} {left right : Expression} :
    (binary op left right).Grounded ↔ left.Grounded ∧ right.Grounded :=
  List.forall_mem_append

theorem reachable_of_eval (grounded : e.Grounded) (evaluated : e.eval = .ok p) :
    Poly.Reachable p := by
  induction e generalizing p with
  | leaf q =>
      cases evaluated
      exact grounded q (List.mem_singleton_self q)
  | unary op operand ih =>
      obtain ⟨q, value, applied⟩ := bind_ok_iff.mp evaluated
      exact Unary.apply_reachable (ih grounded value) applied
  | binary op left right leftIH rightIH =>
      obtain ⟨leftGrounded, rightGrounded⟩ := grounded_binary.mp grounded
      obtain ⟨p, leftValue, remaining⟩ := bind_ok_iff.mp evaluated
      obtain ⟨q, rightValue, applied⟩ := bind_ok_iff.mp remaining
      exact Binary.apply_reachable (leftIH leftGrounded leftValue)
        (rightIH rightGrounded rightValue) applied

theorem nan_of_here (grounded : e.Grounded) (evaluated : e.eval = .ok p)
    (here : (∃ q, e.eval = .ok q ∧ q.isNaN = true) ∨
      ∃ body, e = unary (.antiderivative .nan) body) : p = .nan := by
  rcases here with ⟨q, sameEval, isNaN⟩ | ⟨body, rfl⟩
  · obtain rfl : p = q := Except.ok.inj (evaluated.symm.trans sameEval)
    exact (reachable_of_eval grounded evaluated).wellFormed.eq_nan isNaN
  · obtain ⟨q, -, applied⟩ := bind_ok_iff.mp evaluated
    exact (Except.ok.inj ((Poly.antiderivative_of_isNaN (.inr rfl)).symm.trans applied)).symm

theorem nan_of_meetsNaN (grounded : e.Grounded) (evaluated : e.eval = .ok p)
    (meets : e.MeetsNaN) : p = .nan := by
  induction e generalizing p with
  | leaf q =>
      obtain ⟨s, member, here⟩ := meets
      obtain rfl := List.mem_singleton.mp member
      exact nan_of_here grounded evaluated here
  | unary op operand ih =>
      obtain ⟨s, member, here⟩ := meets
      rcases List.mem_cons.mp member with rfl | inside
      · exact nan_of_here grounded evaluated here
      · obtain ⟨q, value, applied⟩ := bind_ok_iff.mp evaluated
        have qNaN := ih grounded value ⟨s, inside, here⟩
        rw [qNaN, op.apply_nan] at applied
        exact (Except.ok.inj applied).symm
  | binary op left right leftIH rightIH =>
      obtain ⟨s, member, here⟩ := meets
      rcases List.mem_cons.mp member with rfl | inside
      · exact nan_of_here grounded evaluated here
      · obtain ⟨leftGrounded, rightGrounded⟩ := grounded_binary.mp grounded
        obtain ⟨a, leftValue, remaining⟩ := bind_ok_iff.mp evaluated
        obtain ⟨b, rightValue, applied⟩ := bind_ok_iff.mp remaining
        have eitherNaN : a = .nan ∨ b = .nan := by
          rcases List.mem_append.mp inside with inLeft | inRight
          · exact .inl (leftIH leftGrounded leftValue ⟨s, inLeft, here⟩)
          · exact .inr (rightIH rightGrounded rightValue ⟨s, inRight, here⟩)
        rw [Binary.apply_nan eitherNaN] at applied
        exact (Except.ok.inj applied).symm

theorem value_of_eval (grounded : e.Grounded) (divFree : e.DivFree) (evaluated : e.eval = .ok p)
    (finite : p.isNaN = false) : p.value = e.exact := by
  induction e generalizing p with
  | leaf q =>
      cases evaluated
      rfl
  | unary op operand ih =>
      have operandGrounded : operand.Grounded := grounded
      obtain ⟨q, value, applied⟩ := bind_ok_iff.mp evaluated
      have wellFormed := (reachable_of_eval operandGrounded value).wellFormed
      obtain ⟨qFinite, result⟩ := Unary.apply_finite wellFormed applied finite
      rw [result, ih operandGrounded divFree value qFinite, exact]
  | binary op left right leftIH rightIH =>
      obtain ⟨leftGrounded, rightGrounded⟩ := grounded_binary.mp grounded
      obtain ⟨noDiv, leftFree, rightFree⟩ := divFree
      obtain ⟨a, leftValue, remaining⟩ := bind_ok_iff.mp evaluated
      obtain ⟨b, rightValue, applied⟩ := bind_ok_iff.mp remaining
      obtain ⟨aFinite, bFinite, result⟩ := Binary.apply_finite noDiv applied finite
      rw [result, leftIH leftGrounded leftFree leftValue aFinite,
        rightIH rightGrounded rightFree rightValue bFinite, exact]

/-- Without a fault, NaN inside gives NaN; a division-free expression that is not
NaN is exact; and division-free expressions of equal exact values have equal
results. -/
theorem eval_exact_or_nan (grounded : e.Grounded) (evaluated : e.eval = .ok p) :
    (e.MeetsNaN → p = .nan) ∧
      (e.DivFree → p.isNaN = false → p.value = e.exact) ∧
      (∀ (f : Expression) (q : Poly), f.Grounded → f.eval = .ok q → e.DivFree → f.DivFree →
        e.exact = f.exact → p.isNaN = false → q.isNaN = false → p = q) := by
  refine ⟨nan_of_meetsNaN grounded evaluated, fun divFree finite =>
    value_of_eval grounded divFree evaluated finite, ?_⟩
  intro f q fGrounded fEvaluated eFree fFree same pFinite qFinite
  apply Poly.value_injective (reachable_of_eval grounded evaluated).wellFormed
    (reachable_of_eval fGrounded fEvaluated).wellFormed pFinite qFinite
  rw [value_of_eval grounded eFree evaluated pFinite, same,
    value_of_eval fGrounded fFree fEvaluated qFinite]

theorem eval_difference_of_squares :
    let x := leaf (.monomial 1 1)
    let one := leaf (.monomial 1 0)
    let product := binary .mul (binary .add x one) (binary .sub x one)
    let difference := (Poly.monomial 1 ⟨2, by decide⟩).sub (.monomial 1 0)
    product.Grounded ∧ product.eval = .ok difference ∧ difference.isNaN = false ∧
      difference.value = product.exact := by
  intro x one product difference
  have grounded : product.Grounded := by
    simp [product, x, one, Grounded, leaves, Poly.Reachable.monomial]
  have evaluated : product.eval = .ok difference := by rfl
  have finite : difference.isNaN = false := by rfl
  have divFree : product.DivFree := by simp [product, x, one, DivFree]
  exact ⟨grounded, evaluated, finite, (eval_exact_or_nan grounded evaluated).2.1 divFree finite⟩

end Expression

end ExactPoly
