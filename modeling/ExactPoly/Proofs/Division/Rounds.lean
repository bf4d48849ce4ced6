import ExactPoly.Proofs.Success
import ExactPoly.Arithmetic

namespace ExactPoly.Poly

/-! Long division with its rounds counted.

The counting functions make the same decisions as those without a counter and return
the same results.
-/

variable {p d q : Poly}

/-- `divisionLoop` with the number of terms that it divided off. -/
def countedLoop (divisor : Poly) (lead : Term) (remaining : Poly) (quotient : List Term) :
    Except Fault (Nat × List Term) :=
  match remaining.leading? with
  | none => .ok (0, quotient)
  | some top =>
      if top.exponent.val < lead.exponent.val then .ok (0, quotient)
      else
        match top.div lead with
        | .error fault => .error fault
        | .ok q =>
            match reduce remaining divisor q with
            | .error fault => .error fault
            | .ok next =>
                if next.height < remaining.height then
                  (countedLoop divisor lead next (mergeTerm quotient q)).map
                    (fun (rounds, terms) => (rounds + 1, terms))
                else .error (.degreeKept remaining)
termination_by remaining.height

def countedDiv (p divisor : Poly) : Except Fault (Nat × Poly) :=
  if p.isNaN || divisor.isNaN then .ok (0, nan)
  else
    match divisor.leading? with
    | none => .ok (0, nan)
    | some lead =>
        (countedLoop divisor lead p []).map (fun (rounds, terms) => (rounds, ofTerms terms))

theorem countedLoop_eq (divisor : Poly) (lead : Term) (remaining : Poly) (quotient : List Term) :
    (countedLoop divisor lead remaining quotient).map Prod.snd =
      divisionLoop divisor lead remaining quotient := by
  fun_induction divisionLoop divisor lead remaining quotient with
  | case1 remaining quotient leading =>
      rw [countedLoop]
      simp only [leading]
      rfl
  | case2 remaining quotient top leading below =>
      rw [countedLoop]
      simp only [leading, if_pos below]
      rfl
  | case3 remaining quotient top leading reaches fault divided =>
      rw [countedLoop]
      simp only [leading, if_neg reaches, divided]
      rfl
  | case4 remaining quotient top leading reaches q divided fault reduced =>
      rw [countedLoop]
      simp only [leading, if_neg reaches, divided, reduced]
      rfl
  | case5 remaining quotient top leading reaches q divided next reduced lower ih =>
      rw [countedLoop, ← ih]
      simp only [leading, if_neg reaches, divided, reduced, if_pos lower]
      cases countedLoop divisor lead next (mergeTerm quotient q) <;> rfl
  | case6 remaining quotient top leading reaches q divided next reduced kept =>
      rw [countedLoop]
      simp only [leading, if_neg reaches, divided, reduced, if_neg kept]
      rfl

theorem countedDiv_eq (p divisor : Poly) : (p.countedDiv divisor).map Prod.snd = p.div divisor := by
  unfold countedDiv div
  split
  · rfl
  · cases divisor.leading? with
    | none => rfl
    | some lead =>
        simp only [← countedLoop_eq]
        cases countedLoop divisor lead p [] <;> rfl

theorem exists_countedDiv (divided : p.div d = .ok q) :
    ∃ rounds, p.countedDiv d = .ok (rounds, q) := by
  rw [← countedDiv_eq] at divided
  obtain ⟨⟨rounds, found⟩, counted, rfl⟩ := map_ok_iff.mp divided
  exact ⟨rounds, counted⟩

end ExactPoly.Poly
