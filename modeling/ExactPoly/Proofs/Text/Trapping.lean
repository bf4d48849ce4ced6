import ExactPoly.Proofs.Poly.Trapping
import ExactPoly.Proofs.Text.Scan

namespace ExactPoly

/-! Readers over arithmetic that traps.

A quotient that is read and the terms that are merged go through the operations on words,
and so do the offsets of signs.  With the operations on coefficients, terms and
polynomials this covers everything that computes a coefficient, and none of it traps.
-/

def Halt.map {ε ε' : Type} (f : ε → ε') : Halt ε → Halt ε'
  | trap cause => .trap cause
  | failure cause => .failure (f cause)

theorem mapError_failure_map {ε ε' α : Type} (x : Except ε α) (f : ε → ε') :
    (x.mapError Halt.failure).mapError (Halt.map f) = (x.mapError f).mapError .failure := by
  cases x <;> rfl

namespace Coeff

theorem absFits_of_readPart {token : List Char} {n : Int} (accepted : readPart token = .ok n) :
    Wide.AbsFits n := by
  obtain ⟨i, -, rfl⟩ := readPart_ok_iff.mp accepted
  exact Wide.absFits_of_le i.natAbs_value_le (by decide)

namespace Trapping

def readQuotient (num den : List Char) : Except (Halt Coeff.ReadError) Coeff := do
  let n ← (readPart num).mapError .failure
  let d ← (readPart den).mapError .failure
  (ofRatio ⟨n, d⟩).mapError .trap

def read (text : List Char) : Except (Halt Coeff.ReadError) Coeff :=
  if text = [] then .error (.failure .empty)
  else if text = nanText then .ok .nan
  else
    match text.dropWhile (fun c => decide (c ≠ '/')) with
    | [] => ((readPart text).map ofInt).mapError .failure
    | _ :: denominator => readQuotient (text.takeWhile (fun c => decide (c ≠ '/'))) denominator

/-- Both parts are 64-bit integers, so the quotient is one that does not trap. -/
theorem readQuotient_eq (num den : List Char) :
    readQuotient num den =
      (do
        let n ← readPart num
        let d ← readPart den
        return Coeff.ofRatio ⟨n, d⟩).mapError .failure := by
  unfold readQuotient
  cases numerator : readPart num with
  | error cause => rfl
  | ok n =>
      cases denominator : readPart den with
      | error cause => rfl
      | ok d =>
          have fits : Ratio.PartsFit ⟨n, d⟩ :=
            ⟨absFits_of_readPart numerator, absFits_of_readPart denominator⟩
          change (ofRatio ⟨n, d⟩).mapError Halt.trap = _
          rw [ofRatio_eq fits]
          rfl

theorem read_eq (text : List Char) : read text = (Coeff.read text).mapError .failure := by
  unfold read Coeff.read
  split
  · rfl
  · split
    · rfl
    · cases text.dropWhile (fun c => decide (c ≠ '/')) with
      | nil => rfl
      | cons slash denominator => exact readQuotient_eq _ denominator

end Trapping

end Coeff

namespace Term.Trapping

def readHead (whole head : List Char) : Except (Halt ReadError) Coeff :=
  if head = [] then .ok 1
  else if head = ['-'] then .ok (-1)
  else if head.getLast? = some '*' then
    (Coeff.Trapping.read head.dropLast).mapError (.map .coefficient)
  else .error (.failure (.malformedTerm (String.ofList whole)))

def read (text : List Char) : Except (Halt ReadError) Term :=
  if text = [] then .error (.failure .empty)
  else
    match text.dropWhile (fun c => decide (c ≠ 'x')) with
    | [] => do
        let coeff ← (Coeff.Trapping.read text).mapError (.map .coefficient)
        return make coeff 0
    | _ :: tail => do
        let coeff ← readHead text (text.takeWhile (fun c => decide (c ≠ 'x')))
        let exponent ← (readTail text tail).mapError .failure
        return make coeff exponent

theorem readHead_eq (whole head : List Char) :
    readHead whole head = (Term.readHead whole head).mapError .failure := by
  unfold readHead Term.readHead
  split
  · rfl
  · split
    · rfl
    · split
      · rw [Coeff.Trapping.read_eq, mapError_failure_map]
      · rfl

theorem read_eq (text : List Char) : read text = (Term.read text).mapError .failure := by
  unfold read Term.read
  split
  · rfl
  · cases text.dropWhile (fun c => decide (c ≠ 'x')) with
    | nil =>
        simp only [Coeff.Trapping.read_eq, mapError_failure_map]
        cases (Coeff.read text).mapError ReadError.coefficient <;> rfl
    | cons mark tail =>
        simp only [readHead_eq]
        cases Term.readHead text (text.takeWhile (fun c => decide (c ≠ 'x'))) with
        | error cause => rfl
        | ok coeff => cases readTail text tail <;> rfl

end Term.Trapping

namespace Poly

namespace Trapping

def readSegment (sign : Option (Char × Nat)) (segment : List Char) (terms : List Term) :
    Except (Halt ReadError) (List Term) :=
  match segment, sign with
  | [], some (sign, offset) => .error (.failure (.danglingSign sign offset))
  | [], none => .ok terms
  | _ :: _, sign => do
      let t ← Term.Trapping.read segment
      (mergeTerm terms (if sign.map Prod.fst = some '-' then t.neg else t)).mapError .trap

/-- Only the offset after a sign is computed; those of other characters come with the text. -/
def readFrom (sign : Option (Char × Nat)) (segment : List Char) (offset : Nat)
    (terms : List Term) : List Char → Except (Halt ReadError) (List Term)
  | [] => readSegment sign segment.reverse terms
  | c :: rest =>
      if isSign c then do
        let terms ← readSegment sign segment.reverse terms
        let next ← (size (offset + c.utf8Size)).mapError .trap
        readFrom (some (c, offset)) [] next terms rest
      else readFrom sign (c :: segment) (offset + c.utf8Size) terms rest

def read (text : List Char) : Except (Halt ReadError) Poly :=
  if text = [] then .error (.failure .empty)
  else (readFrom none [] 0 [] text).map ofTerms

variable {sign : Option (Char × Nat)} {text segment : List Char} {offset : Nat}
  {terms : List Term}

theorem readSegment_eq (sign : Option (Char × Nat)) (segment : List Char) (terms : List Term) :
    readSegment sign segment terms = (Poly.readSegment sign segment terms).mapError .failure := by
  cases segment with
  | nil => cases sign <;> rfl
  | cons c rest =>
      rw [readSegment, Poly.readSegment, Term.Trapping.read_eq]
      cases Term.read (c :: rest) with
      | error cause => rfl
      | ok t =>
          rw [ok_bind]
          change (mergeTerm terms _).mapError Halt.trap = _
          rw [mergeTerm_eq]
          rfl

theorem readFrom_eq (addressable : offset + byteSize text < 18446744073709551616) :
    readFrom sign segment offset terms text =
      (Poly.readFrom sign segment offset terms text).mapError .failure := by
  induction text generalizing sign segment offset terms with
  | nil => exact readSegment_eq sign segment.reverse terms
  | cons c rest ih =>
      rw [byteSize_cons, ← Nat.add_assoc] at addressable
      unfold readFrom Poly.readFrom
      split
      · rw [readSegment_eq]
        cases Poly.readSegment sign segment.reverse terms with
        | error cause => rfl
        | ok merged =>
            have next : size (offset + c.utf8Size) = .ok (offset + c.utf8Size) :=
              if_pos (Nat.lt_of_le_of_lt (Nat.le_add_right _ _) addressable)
            change (size (offset + c.utf8Size)).mapError Halt.trap >>= _ = _
            rw [next]
            exact ih addressable
      · exact ih addressable

theorem read_eq (addressable : byteSize text < 18446744073709551616) :
    read text = (Poly.read text).mapError .failure := by
  unfold read Poly.read
  split
  · rfl
  · rw [readFrom_eq (by rwa [Nat.zero_add])]
    cases Poly.readFrom none [] 0 [] text <;> rfl

end Trapping

/-- No operation on coefficients, terms or polynomials computes a value that does not fit its
word or divides by zero on the way: each ends as the exact operation does.  Coefficients are
lowest terms of signed 64-bit parts however they came about. -/
theorem operations_never_trap (n d : Int64) (c e : Coeff) (t u : Term) {p q : Poly}
    (pReachable : Reachable p) (qReachable : Reachable q) (lower upper : Float)
    {text : List Char} (addressable : byteSize text < 18446744073709551616) :
    (Coeff.Trapping.ofRatio ⟨n.toInt, d.toInt⟩ = .ok (Coeff.ofRatio ⟨n.toInt, d.toInt⟩) ∧
      Coeff.Trapping.add c e = .ok (c + e) ∧ Coeff.Trapping.sub c e = .ok (c - e) ∧
      Coeff.Trapping.mul c e = .ok (c * e) ∧ Coeff.Trapping.div c e = .ok (c / e) ∧
      Coeff.Trapping.compare c e = .ok (compare c e)) ∧
    (Term.Trapping.add t u = (t.add u).mapError .failure ∧
      Term.Trapping.sub t u = (t.sub u).mapError .failure ∧
      Term.Trapping.mul t u = (t.mul u).mapError .failure ∧
      Term.Trapping.div t u = (t.div u).mapError .failure ∧
      Term.Trapping.derivative t = .ok t.derivative ∧
      Term.Trapping.antiderivative t = t.antiderivative.mapError .failure) ∧
    (Trapping.ofTerm t = .ok (ofTerm t) ∧
      Trapping.add p q = .ok (p.add q) ∧ Trapping.sub p q = .ok (p.sub q) ∧
      Trapping.mul p q = (p.mul q).mapError .failure ∧
      Trapping.div p q = (p.div q).mapError .failure ∧
      Trapping.derivative p = .ok p.derivative ∧
      Trapping.antiderivative p c = (p.antiderivative c).mapError .failure ∧
      Trapping.integrate p lower upper = (p.integrate lower upper).mapError .failure) ∧
    (Coeff.Trapping.read text = (Coeff.read text).mapError .failure ∧
      Term.Trapping.read text = (Term.read text).mapError .failure ∧
      Trapping.read text = (read text).mapError .failure) := by
  have pWellFormed := pReachable.wellFormed
  have qWellFormed := qReachable.wellFormed
  exact
    ⟨⟨Coeff.Trapping.ofRatio_words n d, Coeff.Trapping.add_eq c e, Coeff.Trapping.sub_eq c e,
        Coeff.Trapping.mul_eq c e, Coeff.Trapping.div_eq c e, Coeff.Trapping.compare_eq c e⟩,
      ⟨Term.Trapping.add_eq t u, Term.Trapping.sub_eq t u, Term.Trapping.mul_eq t u,
        Term.Trapping.div_eq t u, Term.Trapping.derivative_eq t,
        Term.Trapping.antiderivative_eq t⟩,
      ⟨Trapping.ofTerm_eq t, Trapping.add_eq p q, Trapping.sub_eq p q,
        Trapping.mul_eq pWellFormed qWellFormed, Trapping.div_eq qWellFormed p,
        Trapping.derivative_eq p, Trapping.antiderivative_eq p c,
        Trapping.integrate_eq p lower upper⟩,
      Coeff.Trapping.read_eq text, Term.Trapping.read_eq text, Trapping.read_eq addressable⟩

/-- The least word over itself, and a sum, a product and a text whose results do not fit a
coefficient. -/
theorem extreme_operations_do_not_trap :
    let least : Coeff := .ofRatio ⟨-9223372036854775808, 9223372036854775807⟩
    let greatest := monomial 9223372036854775807 1
    let text := "9223372036854775807/2*x-9223372036854775807/3*x^2+x".toList
    Reachable greatest ∧ byteSize text < 18446744073709551616 ∧
      Coeff.Trapping.ofRatio ⟨Int64.minValue.toInt, Int64.minValue.toInt⟩ = .ok 1 ∧
      Coeff.Trapping.add least least = .ok .nan ∧
      Trapping.mul greatest greatest = .ok nan ∧
      Trapping.read text = .ok nan := by
  intro least greatest text
  have reachable : Reachable greatest := .monomial _ _
  have addressable : byteSize text < 18446744073709551616 := by decide
  obtain ⟨⟨quotient, sum, -⟩, -, ⟨-, -, -, product, -⟩, -, -, reading⟩ :=
    operations_never_trap Int64.minValue Int64.minValue least least 0 0 reachable reachable 0 1
      addressable
  have one : Coeff.ofRatio ⟨Int64.minValue.toInt, Int64.minValue.toInt⟩ = 1 := by decide
  have sumNaN : least + least = .nan := by decide
  have productNaN : greatest.mul greatest = .ok nan := by rfl
  have readNaN : read text = .ok nan := by rfl
  rw [one] at quotient
  rw [sumNaN] at sum
  rw [productNaN] at product
  rw [readNaN] at reading
  exact ⟨reachable, addressable, quotient, sum, product, reading⟩

end Poly

end ExactPoly
