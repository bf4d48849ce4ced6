import ExactPoly.Proofs.Coeff.Trapping
import ExactPoly.Proofs.Poly.Reachable

namespace ExactPoly

/-! Terms and polynomials over coefficient arithmetic that traps.

Each operation is written out over the operations on words, and the number of terms a
product reserves space for is a word as well.  A trap is kept apart from the faults of
the operation, so that to be equal to the exact operation is to end without a trap.
-/

/-- How a computation on words ends without a result: by a trap, or by a failure that the
exact computation has too. -/
inductive Halt (ε : Type) where
  | trap (cause : Trap)
  | failure (cause : ε)

namespace Term.Trapping

def add (t u : Term) : Except (Halt Fault) Term :=
  if t.isNaN || u.isNaN then .ok nan
  else if t.isZero then .ok u
  else if u.isZero then .ok t
  else if t.exponent = u.exponent then do
    let coeff ← (Coeff.Trapping.add t.coeff u.coeff).mapError .trap
    return make coeff t.exponent
  else .error (.failure (.unequalExponents t.exponent u.exponent))

def sub (t u : Term) : Except (Halt Fault) Term :=
  add t u.neg

def mul (t u : Term) : Except (Halt Fault) Term :=
  if t.isNaN || u.isNaN then .ok nan
  else do
    let coeff ← (Coeff.Trapping.mul t.coeff u.coeff).mapError .trap
    (ofParts coeff (t.exponent.add? u.exponent) (.productExponent t u)).mapError .failure

def div (t u : Term) : Except (Halt Fault) Term :=
  if t.isNaN || u.isNaN then .ok nan
  else do
    let coeff ← (Coeff.Trapping.div t.coeff u.coeff).mapError .trap
    (ofParts coeff (t.exponent.sub? u.exponent) (.quotientExponent t u)).mapError .failure

def derivative (t : Term) : Except Trap Term :=
  if t.isNaN then .ok nan
  else do
    let coeff ← Coeff.Trapping.mul t.coeff (Coeff.ofInt t.exponent.val)
    return make coeff t.exponent.pred

def antiderivative (t : Term) : Except (Halt Fault) Term :=
  if t.isNaN || t.isZero then .ok t
  else
    match t.exponent.succ? with
    | some exponent => do
        let coeff ← (Coeff.Trapping.div t.coeff (Coeff.ofInt exponent.val)).mapError .trap
        return make coeff exponent
    | none => .error (.failure (.antiderivativeExponent t))

theorem add_eq (t u : Term) : add t u = (t.add u).mapError .failure := by
  unfold add Term.add
  split
  · rfl
  · split
    · rfl
    · split
      · rfl
      · split
        · rw [Coeff.Trapping.add_eq]
          rfl
        · rfl

theorem sub_eq (t u : Term) : sub t u = (t.sub u).mapError .failure :=
  add_eq t u.neg

theorem mul_eq (t u : Term) : mul t u = (t.mul u).mapError .failure := by
  unfold mul Term.mul
  split
  · rfl
  · rw [Coeff.Trapping.mul_eq]
    rfl

theorem div_eq (t u : Term) : div t u = (t.div u).mapError .failure := by
  unfold div Term.div
  split
  · rfl
  · rw [Coeff.Trapping.div_eq]
    rfl

theorem derivative_eq (t : Term) : derivative t = .ok t.derivative := by
  unfold derivative Term.derivative
  split
  · rfl
  · rw [Coeff.Trapping.mul_eq]
    rfl

theorem antiderivative_eq (t : Term) :
    antiderivative t = (t.antiderivative).mapError .failure := by
  unfold antiderivative Term.antiderivative
  split
  · rfl
  · cases t.exponent.succ? with
    | none => rfl
    | some exponent =>
        simp only [Coeff.Trapping.div_eq]
        rfl

end Term.Trapping

namespace Poly

namespace Trapping

/-- A number of terms or an offset, as an unsigned 64-bit word. -/
def size (n : Nat) : Except Trap Nat :=
  if n < 18446744073709551616 then .ok n else .error .overflow

def mergeNonzero (t : Term) : List Term → Except Trap (List Term)
  | [] => .ok [t]
  | u :: rest =>
      if t.exponent.val < u.exponent.val then do
        let merged ← mergeNonzero t rest
        return u :: merged
      else if u.exponent = t.exponent then do
        let coeff ← Coeff.Trapping.add u.coeff t.coeff
        let merged := Term.make coeff t.exponent
        return if merged.isZero then rest else merged :: rest
      else .ok (t :: u :: rest)

def mergeTerm (terms : List Term) (t : Term) : Except Trap (List Term) :=
  if t.isZero then .ok terms else mergeNonzero t terms

def mergeAll (terms added : List Term) : Except Trap (List Term) :=
  added.foldlM mergeTerm terms

def ofTerm (t : Term) : Except Trap Poly :=
  (mergeTerm [] t).map ofTerms

def add (p q : Poly) : Except Trap Poly :=
  if p.isNaN || q.isNaN then .ok nan else (mergeAll p.terms q.terms).map ofTerms

def sub (p q : Poly) : Except Trap Poly :=
  add p q.neg

def products (left right : List Term) : Except (Halt Fault) (List Term) := do
  let rows ← left.mapM (fun t => right.mapM (Term.Trapping.mul t))
  return rows.flatten

def mul (p q : Poly) : Except (Halt Fault) Poly :=
  if p.isNaN || q.isNaN then .ok nan
  else do
    let _ ← (size (p.terms.length + q.terms.length)).mapError .trap
    let terms ← products p.terms q.terms
    ((mergeAll [] terms).map ofTerms).mapError .trap

def reduce (remaining divisor : Poly) (q : Term) : Except (Halt Fault) Poly := do
  let factor ← (ofTerm q).mapError .trap
  let product ← mul divisor factor
  (sub remaining product).mapError .trap

def divisionLoop (divisor : Poly) (lead : Term) (remaining : Poly) (quotient : List Term) :
    Except (Halt Fault) (List Term) :=
  match remaining.leading? with
  | none => .ok quotient
  | some top =>
      if top.exponent.val < lead.exponent.val then .ok quotient
      else
        match Term.Trapping.div top lead with
        | .error halt => .error halt
        | .ok q =>
            match reduce remaining divisor q with
            | .error halt => .error halt
            | .ok next =>
                if next.height < remaining.height then
                  match mergeTerm quotient q with
                  | .error cause => .error (.trap cause)
                  | .ok merged => divisionLoop divisor lead next merged
                else .error (.failure (.degreeKept remaining))
termination_by remaining.height

def div (p divisor : Poly) : Except (Halt Fault) Poly :=
  if p.isNaN || divisor.isNaN then .ok nan
  else
    match divisor.leading? with
    | none => .ok nan
    | some lead => (divisionLoop divisor lead p []).map ofTerms

def derivative (p : Poly) : Except Trap Poly :=
  if p.isNaN then .ok nan
  else do
    let terms ← p.terms.mapM Term.Trapping.derivative
    return ofTerms (terms.filter (fun t => !t.isZero))

def antiderivative (p : Poly) (constant : Coeff) : Except (Halt Fault) Poly :=
  if p.isNaN || constant.isNaN then .ok nan
  else do
    let terms ← p.terms.mapM Term.Trapping.antiderivative
    ((mergeTerm terms (Term.make constant 0)).map ofTerms).mapError .trap

def integrate (p : Poly) (lower upper : Float) : Except (Halt Fault) Float :=
  if p.isNaN || !lower.isFinite || !upper.isFinite then .ok (0.0 / 0.0)
  else do
    let anti ← antiderivative p 0
    return anti.eval upper - anti.eval lower

variable {p q remaining divisor : Poly} {quotient : List Term} {lead : Term}

theorem size_lengths_eq (pWellFormed : p.WellFormed) (qWellFormed : q.WellFormed) :
    size (p.terms.length + q.terms.length) = .ok (p.terms.length + q.terms.length) := by
  have pBounded := pWellFormed.length_le
  have qBounded := qWellFormed.length_le
  exact if_pos (by omega)

theorem mergeNonzero_eq (t : Term) (terms : List Term) :
    mergeNonzero t terms = .ok (Poly.mergeNonzero t terms) := by
  induction terms with
  | nil => rfl
  | cons u rest ih =>
      unfold mergeNonzero Poly.mergeNonzero
      split
      · rw [ih]
        rfl
      · split
        · rw [Coeff.Trapping.add_eq]
          rfl
        · rfl

theorem mergeTerm_eq (terms : List Term) (t : Term) :
    mergeTerm terms t = .ok (Poly.mergeTerm terms t) := by
  unfold mergeTerm Poly.mergeTerm
  split
  · rfl
  · exact mergeNonzero_eq t terms

theorem mergeAll_eq (terms added : List Term) :
    mergeAll terms added = .ok (Poly.mergeAll terms added) := by
  have merging : mergeTerm = fun terms t => .ok (Poly.mergeTerm terms t) :=
    funext₂ mergeTerm_eq
  rw [mergeAll, merging]
  exact List.foldlM_pure

theorem ofTerm_eq (t : Term) : ofTerm t = .ok (Poly.ofTerm t) := by
  rw [ofTerm, mergeTerm_eq]
  rfl

theorem add_eq (p q : Poly) : add p q = .ok (p.add q) := by
  unfold add Poly.add
  split
  · rfl
  · rw [mergeAll_eq]
    rfl

theorem sub_eq (p q : Poly) : sub p q = .ok (p.sub q) :=
  add_eq p q.neg

theorem products_eq (left right : List Term) :
    products left right = (Poly.products left right).mapError .failure := by
  have row (t : Term) :
      right.mapM (Term.Trapping.mul t) = (right.mapM t.mul).mapError .failure := by
    rw [funext (Term.Trapping.mul_eq t), mapM_mapError]
  rw [products, funext row, mapM_mapError, Poly.products]
  cases left.mapM fun t => right.mapM t.mul <;> rfl

theorem mul_eq (pWellFormed : p.WellFormed) (qWellFormed : q.WellFormed) :
    mul p q = (p.mul q).mapError .failure := by
  unfold mul Poly.mul
  split
  · rfl
  · rw [size_lengths_eq pWellFormed qWellFormed, products_eq]
    cases Poly.products p.terms q.terms with
    | error cause => rfl
    | ok terms =>
        change ((mergeAll [] terms).map ofTerms).mapError Halt.trap = _
        rw [mergeAll_eq]
        rfl

theorem reduce_eq (wellFormed : divisor.WellFormed) (remaining : Poly) (q : Term) :
    reduce remaining divisor q = (Poly.reduce remaining divisor q).mapError .failure := by
  rw [reduce, Poly.reduce, ofTerm_eq]
  change (mul divisor (Poly.ofTerm q) >>= fun product =>
    (sub remaining product).mapError Halt.trap) = _
  rw [mul_eq wellFormed (ofTerm_wellFormed q)]
  cases divisor.mul (Poly.ofTerm q) with
  | error cause => rfl
  | ok product =>
      change (sub remaining product).mapError Halt.trap = _
      rw [sub_eq]
      rfl

theorem divisionLoop_eq (wellFormed : divisor.WellFormed) :
    divisionLoop divisor lead remaining quotient =
      (Poly.divisionLoop divisor lead remaining quotient).mapError .failure := by
  fun_induction Poly.divisionLoop divisor lead remaining quotient with
  | case1 remaining quotient leading =>
      rw [divisionLoop]
      simp only [leading]
      rfl
  | case2 remaining quotient top leading below =>
      rw [divisionLoop]
      simp only [leading, if_pos below]
      rfl
  | case3 remaining quotient top leading reaches cause divided =>
      rw [divisionLoop]
      simp only [leading, if_neg reaches, Term.Trapping.div_eq, divided]
      rfl
  | case4 remaining quotient top leading reaches q divided cause reduced =>
      rw [divisionLoop]
      simp only [leading, if_neg reaches, Term.Trapping.div_eq, divided, reduce_eq wellFormed,
        reduced, Except.mapError]
  | case5 remaining quotient top leading reaches q divided next reduced lower ih =>
      rw [divisionLoop]
      simp only [leading, if_neg reaches, Term.Trapping.div_eq, divided, reduce_eq wellFormed,
        reduced, Except.mapError, if_pos lower, mergeTerm_eq, ih]
  | case6 remaining quotient top leading reaches q divided next reduced kept =>
      rw [divisionLoop]
      simp only [leading, if_neg reaches, Term.Trapping.div_eq, divided, reduce_eq wellFormed,
        reduced, Except.mapError, if_neg kept]

theorem div_eq (wellFormed : divisor.WellFormed) (p : Poly) :
    div p divisor = (p.div divisor).mapError .failure := by
  unfold div Poly.div
  split
  · rfl
  · cases divisor.leading? with
    | none => rfl
    | some lead =>
        simp only [divisionLoop_eq wellFormed]
        cases Poly.divisionLoop divisor lead p [] <;> rfl

theorem derivative_eq (p : Poly) : derivative p = .ok p.derivative := by
  unfold derivative Poly.derivative
  split
  · rfl
  · have terms : p.terms.mapM Term.Trapping.derivative = .ok (p.terms.map Term.derivative) := by
      rw [funext Term.Trapping.derivative_eq]
      exact List.mapM_pure
    rw [terms]
    rfl

theorem antiderivative_eq (p : Poly) (constant : Coeff) :
    antiderivative p constant = (p.antiderivative constant).mapError .failure := by
  unfold antiderivative Poly.antiderivative
  split
  · rfl
  · rw [funext Term.Trapping.antiderivative_eq, mapM_mapError]
    cases p.terms.mapM Term.antiderivative with
    | error cause => rfl
    | ok terms =>
        change ((mergeTerm terms (Term.make constant 0)).map ofTerms).mapError Halt.trap = _
        rw [mergeTerm_eq]
        rfl

theorem integrate_eq (p : Poly) (lower upper : Float) :
    integrate p lower upper = (p.integrate lower upper).mapError .failure := by
  unfold integrate Poly.integrate
  split
  · rfl
  · rw [antiderivative_eq]
    cases p.antiderivative 0 <;> rfl

end Trapping

end Poly

end ExactPoly
