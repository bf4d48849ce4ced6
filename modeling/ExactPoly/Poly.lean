import ExactPoly.Term

namespace ExactPoly

/-! Sparse polynomials in one variable.

A polynomial is the list of its terms.  Every operation builds its result by
merging terms into a sequence one at a time, and then absorbs NaN: a sequence
with a NaN coefficient becomes the single NaN term.  `Canonical` is the form
that these operations keep: non-zero terms of strictly descending exponents.
-/

structure Poly where
  terms : List Term
deriving DecidableEq

namespace Poly

/-- Adds a non-zero term to a sequence: to the entry of its exponent, which
disappears if the sum is zero, or else before the first smaller exponent. -/
def mergeNonzero (t : Term) : List Term → List Term
  | [] => [t]
  | u :: rest =>
      if t.exponent.val < u.exponent.val then u :: mergeNonzero t rest
      else if u.exponent = t.exponent then
        let merged := Term.make (u.coeff + t.coeff) t.exponent
        if merged.isZero then rest else merged :: rest
      else t :: u :: rest

def mergeTerm (terms : List Term) (t : Term) : List Term :=
  if t.isZero then terms else mergeNonzero t terms

def mergeAll (terms added : List Term) : List Term :=
  added.foldl mergeTerm terms

instance : Zero Poly := ⟨⟨[]⟩⟩

instance : Inhabited Poly := ⟨0⟩

def nan : Poly := ⟨[Term.nan]⟩

/-- A merged sequence as a polynomial; one NaN coefficient makes it NaN. -/
def ofTerms (terms : List Term) : Poly :=
  if terms.any Term.isNaN then nan else ⟨terms⟩

def ofTerm (t : Term) : Poly :=
  ofTerms (mergeTerm [] t)

def monomial (coeff : Int) (exponent : Exponent) : Poly :=
  ofTerm (Term.make (Coeff.ofInt coeff) exponent)

def Canonical (p : Poly) : Prop :=
  (∀ t ∈ p.terms, t.isZero = false) ∧
    p.terms.Pairwise (fun t u => u.exponent.val < t.exponent.val)

def descending : List Term → Bool
  | t :: u :: rest => decide (u.exponent.val < t.exponent.val) && descending (u :: rest)
  | _ => true

def isCanonical (p : Poly) : Bool :=
  p.terms.all (fun t => !t.isZero) && descending p.terms

theorem descending_iff (terms : List Term) :
    descending terms = true ↔
      terms.Pairwise (fun t u => u.exponent.val < t.exponent.val) := by
  induction terms with
  | nil => simp [descending]
  | cons t rest ih =>
      cases rest with
      | nil => simp [descending]
      | cons u rest =>
          simp only [descending, Bool.and_eq_true, decide_eq_true_eq, ih, List.pairwise_cons]
          constructor
          · rintro ⟨lower, below, sorted⟩
            refine ⟨fun v member => ?_, below, sorted⟩
            rcases List.mem_cons.mp member with rfl | member
            · exact lower
            · exact Nat.lt_trans (below v member) lower
          · rintro ⟨below, sorted⟩
            exact ⟨below u (List.mem_cons_self ..), sorted⟩

theorem isCanonical_iff (p : Poly) : p.isCanonical = true ↔ p.Canonical := by
  simp [isCanonical, Canonical, descending_iff]

instance (p : Poly) : Decidable p.Canonical :=
  decidable_of_iff _ p.isCanonical_iff

def isNaN (p : Poly) : Bool :=
  p.terms.any Term.isNaN

def isZero (p : Poly) : Bool :=
  p.terms.isEmpty

def leading? (p : Poly) : Option Term :=
  p.terms.head?

/-- The leading exponent; zero for the polynomial without terms. -/
def degree (p : Poly) : Exponent :=
  (p.leading?.map Term.exponent).getD 0

/-- The term of a given exponent; the zero term if there is none. -/
def term (p : Poly) (exponent : Exponent) : Term :=
  (p.terms.find? (fun t => decide (t.exponent = exponent))).getD 0

def neg (p : Poly) : Poly :=
  if p.isNaN then nan else ofTerms (p.terms.map Term.neg)

def add (p q : Poly) : Poly :=
  if p.isNaN || q.isNaN then nan else ofTerms (mergeAll p.terms q.terms)

def sub (p q : Poly) : Poly :=
  p.add q.neg

def derivative (p : Poly) : Poly :=
  if p.isNaN then nan
  else ofTerms ((p.terms.map Term.derivative).filter (fun t => !t.isZero))

end Poly

namespace Poly

/-! The text of a polynomial: terms joined by their signs, without blanks. -/

def isSign (c : Char) : Bool :=
  c == '+' || c == '-'

def byteSize (text : List Char) : Nat :=
  text.foldl (fun size c => size + c.utf8Size) 0

/-- Reads the term between two signs, or after the last, and merges it with the
sign before it. -/
def readSegment (sign : Option (Char × Nat)) (segment : List Char) (terms : List Term) :
    Except ReadError (List Term) :=
  match segment, sign with
  | [], some (sign, offset) => .error (.danglingSign sign offset)
  | [], none => .ok terms
  | _ :: _, sign => do
      let t ← Term.read segment
      return mergeTerm terms (if sign.map Prod.fst = some '-' then t.neg else t)

/-- Reads what follows the pending `sign`.  The characters since that sign are
`segment`, in reverse, and the next character is at byte `offset`. -/
def readFrom (sign : Option (Char × Nat)) (segment : List Char) (offset : Nat)
    (terms : List Term) : List Char → Except ReadError (List Term)
  | [] => readSegment sign segment.reverse terms
  | c :: rest =>
      if isSign c then do
        let terms ← readSegment sign segment.reverse terms
        readFrom (some (c, offset)) [] (offset + c.utf8Size) terms rest
      else readFrom sign (c :: segment) (offset + c.utf8Size) terms rest

/-- Reads signed terms; terms of equal exponents are combined. -/
def read (text : List Char) : Except ReadError Poly :=
  if text = [] then .error .empty
  else (readFrom none [] 0 [] text).map ofTerms

/-- A term after another one: its own minus sign separates, otherwise a plus sign. -/
def printNext (t : Term) : List Char :=
  if t.coeff.isNegative then t.print else '+' :: t.print

def print (p : Poly) : List Char :=
  if p.isNaN then Coeff.nanText
  else
    match p.terms with
    | [] => ['0']
    | first :: rest => first.print ++ rest.flatMap printNext

instance : ToString Poly := ⟨fun p => String.ofList p.print⟩

end Poly

end ExactPoly
