import ExactPoly.Calculator.Stack
import ExactPoly.Proofs.Poly.Reachable

namespace ExactPoly

/-! Operations that check the form of what they build.

Here every polynomial is checked at the place where it is built from merged
terms, also the intermediate ones of a subtraction or a division step.  On well
formed operands the checks never fail, so the operations are the unchecked ones.
-/

/-- How a computation with checks ends without a result. -/
inductive Stop where
  | fault (cause : Fault)
  | malformedPoly (p : Poly)
  | malformedStack (s : Stack)

namespace Poly

namespace Checked

/-- `Poly.ofTerms`, with the check that the result is canonical. -/
def build (terms : List Term) : Except Stop Poly :=
  if (ofTerms terms).isCanonical then .ok (ofTerms terms)
  else .error (.malformedPoly (ofTerms terms))

def ofTerm (t : Term) : Except Stop Poly :=
  build (mergeTerm [] t)

def neg (p : Poly) : Except Stop Poly :=
  if p.isNaN then .ok nan else build (p.terms.map Term.neg)

def add (p q : Poly) : Except Stop Poly :=
  if p.isNaN || q.isNaN then .ok nan else build (mergeAll p.terms q.terms)

def sub (p q : Poly) : Except Stop Poly := do
  let negated ← neg q
  add p negated

def mul (p q : Poly) : Except Stop Poly :=
  if p.isNaN || q.isNaN then .ok nan
  else do
    let terms ← (products p.terms q.terms).mapError .fault
    build (mergeAll [] terms)

def reduce (remaining divisor : Poly) (q : Term) : Except Stop Poly := do
  let factor ← ofTerm q
  let product ← mul divisor factor
  sub remaining product

def divisionLoop (divisor : Poly) (lead : Term) (remaining : Poly) (quotient : List Term) :
    Except Stop (List Term) :=
  match remaining.leading? with
  | none => .ok quotient
  | some top =>
      if top.exponent.val < lead.exponent.val then .ok quotient
      else
        match top.div lead with
        | .error cause => .error (.fault cause)
        | .ok q =>
            match reduce remaining divisor q with
            | .error stop => .error stop
            | .ok next =>
                if next.height < remaining.height then
                  divisionLoop divisor lead next (mergeTerm quotient q)
                else .error (.fault (.degreeKept remaining))
termination_by remaining.height

def div (p divisor : Poly) : Except Stop Poly :=
  if p.isNaN || divisor.isNaN then .ok nan
  else
    match divisor.leading? with
    | none => .ok nan
    | some lead => do
        let terms ← divisionLoop divisor lead p []
        build terms

def derivative (p : Poly) : Except Stop Poly :=
  if p.isNaN then .ok nan
  else build ((p.terms.map Term.derivative).filter (fun t => !t.isZero))

def antiderivative (p : Poly) (constant : Coeff) : Except Stop Poly :=
  if p.isNaN || constant.isNaN then .ok nan
  else do
    let terms ← (p.terms.mapM Term.antiderivative).mapError .fault
    build (mergeTerm terms (Term.make constant 0))

def integrate (p : Poly) (lower upper : Float) : Except Stop Float :=
  if p.isNaN || !lower.isFinite || !upper.isFinite then .ok (0.0 / 0.0)
  else do
    let anti ← antiderivative p 0
    return anti.eval upper - anti.eval lower

variable {p q remaining divisor : Poly} {terms quotient : List Term} {lead t : Term}
  {constant : Coeff}

theorem build_eq (proper : NaNFree terms → Proper terms) : build terms = .ok (ofTerms terms) :=
  if_pos ((isCanonical_iff _).mpr (wellFormed_ofTerms proper).canonical)

/-- The check after a computation of terms that are proper whenever it returns. -/
theorem build_mapError_eq {formed : Except Fault (List Term)} {arrange : List Term → List Term}
    (proper : ∀ terms, formed = .ok terms → NaNFree (arrange terms) → Proper (arrange terms)) :
    (formed.mapError .fault >>= fun terms => build (arrange terms)) =
      (formed.map fun terms => ofTerms (arrange terms)).mapError .fault := by
  cases formed with
  | error cause => rfl
  | ok terms => exact build_eq (proper terms rfl)

theorem ofTerm_eq (t : Term) : ofTerm t = .ok (Poly.ofTerm t) :=
  build_eq (proper_mergeTerm fun _ => proper_nil)

theorem neg_eq (wellFormed : p.WellFormed) : neg p = .ok p.neg := by
  cases finite : p.isNaN with
  | true => rw [neg_of_isNaN finite, neg, if_pos finite]
  | false =>
      rw [neg_of_finite finite, neg, if_neg (Bool.eq_false_iff.mp finite)]
      exact build_eq (proper_neg (wellFormed.proper finite))

theorem add_eq (wellFormed : p.WellFormed) (q : Poly) : add p q = .ok (p.add q) := by
  unfold add Poly.add
  split
  · rfl
  · rename_i defined
    have finite : p.isNaN = false := by
      rw [Bool.or_eq_true_iff, not_or] at defined
      exact Bool.eq_false_iff.mpr defined.1
    exact build_eq (proper_mergeAll fun _ => wellFormed.proper finite)

theorem sub_eq (pWellFormed : p.WellFormed) (qWellFormed : q.WellFormed) :
    sub p q = .ok (p.sub q) := by
  rw [sub, neg_eq qWellFormed]
  exact add_eq pWellFormed q.neg

theorem mul_eq (p q : Poly) : mul p q = (p.mul q).mapError .fault := by
  unfold mul Poly.mul
  split
  · rfl
  · exact build_mapError_eq fun _ _ => proper_mergeAll fun _ => proper_nil

theorem reduce_eq (wellFormed : remaining.WellFormed) (divisor : Poly) (t : Term) :
    reduce remaining divisor t = (Poly.reduce remaining divisor t).mapError .fault := by
  rw [reduce, Poly.reduce, ofTerm_eq]
  change mul divisor (Poly.ofTerm t) >>= sub remaining = _
  rw [mul_eq]
  cases multiplied : divisor.mul (Poly.ofTerm t) with
  | error cause => rfl
  | ok product => exact sub_eq wellFormed (mul_wellFormed multiplied)

theorem divisionLoop_eq (wellFormed : remaining.WellFormed) :
    divisionLoop divisor lead remaining quotient =
      (Poly.divisionLoop divisor lead remaining quotient).mapError .fault := by
  -- Only what remains is checked inside the loop; the quotient is checked at the end.
  fun_induction Poly.divisionLoop divisor lead remaining quotient with
  | case1 remaining quotient leading =>
      rw [divisionLoop]
      simp only [leading]
      rfl
  | case2 remaining quotient top leading below =>
      rw [divisionLoop]
      simp only [leading, if_pos below]
      rfl
  | case3 remaining quotient top leading reaches cause divided =>
      rw [divisionLoop]
      simp only [leading, if_neg reaches, divided]
      rfl
  | case4 remaining quotient top leading reaches q divided cause reduced =>
      rw [divisionLoop]
      simp only [leading, if_neg reaches, divided, reduce_eq wellFormed, reduced]
      rfl
  | case5 remaining quotient top leading reaches q divided next reduced lower ih =>
      obtain ⟨product, -, difference⟩ := map_ok_iff.mp reduced
      have nextWellFormed : next.WellFormed := difference ▸ sub_wellFormed wellFormed
      have checked : reduce remaining divisor q = .ok next := by
        rw [reduce_eq wellFormed, reduced]
        rfl
      rw [divisionLoop]
      simp only [leading, if_neg reaches, divided, checked, if_pos lower, ih nextWellFormed]
  | case6 remaining quotient top leading reaches q divided next reduced kept =>
      have checked : reduce remaining divisor q = .ok next := by
        rw [reduce_eq wellFormed, reduced]
        rfl
      rw [divisionLoop]
      simp only [leading, if_neg reaches, divided, checked, if_neg kept]
      rfl

theorem div_eq (wellFormed : p.WellFormed) (divisor : Poly) :
    div p divisor = (p.div divisor).mapError .fault := by
  unfold div Poly.div
  split
  · rfl
  · cases divisor.leading? with
    | none => rfl
    | some lead =>
        simp only [divisionLoop_eq wellFormed]
        exact build_mapError_eq fun _ ended => proper_divisionLoop (fun _ => proper_nil) ended

theorem derivative_eq (wellFormed : p.WellFormed) : derivative p = .ok p.derivative := by
  cases finite : p.isNaN with
  | true => rw [derivative_of_isNaN finite, derivative, if_pos finite]
  | false =>
      rw [derivative_of_finite finite, derivative, if_neg (Bool.eq_false_iff.mp finite)]
      exact build_eq (proper_derivative (wellFormed.proper finite))

theorem antiderivative_eq (wellFormed : p.WellFormed) (constant : Coeff) :
    antiderivative p constant = (p.antiderivative constant).mapError .fault := by
  unfold antiderivative Poly.antiderivative
  split
  · rfl
  · rename_i defined
    rw [Bool.or_eq_true_iff, not_or] at defined
    have proper := wellFormed.proper (Bool.eq_false_iff.mpr defined.1)
    exact build_mapError_eq fun _ traversed =>
      proper_mergeTerm (proper_antiderivatives proper (mapM_ok_iff.mp traversed))

theorem integrate_eq (wellFormed : p.WellFormed) (lower upper : Float) :
    integrate p lower upper = (p.integrate lower upper).mapError .fault := by
  unfold integrate Poly.integrate
  split
  · rfl
  · rw [antiderivative_eq wellFormed]
    cases p.antiderivative 0 <;> rfl

end Checked

end Poly

end ExactPoly
