import ExactPoly.Coeff

namespace ExactPoly

/-! Exponents of the variable: natural numbers below `2^32`. -/

structure Exponent where
  val : Nat
  val_le : val ≤ 4294967295
deriving DecidableEq

namespace Exponent

def ofNat? (n : Nat) : Option Exponent :=
  if bound : n ≤ 4294967295 then some ⟨n, bound⟩ else none

instance : Zero Exponent := ⟨⟨0, by decide⟩⟩

instance : One Exponent := ⟨⟨1, by decide⟩⟩

def add? (a b : Exponent) : Option Exponent :=
  ofNat? (a.val + b.val)

def sub? (a b : Exponent) : Option Exponent :=
  if b.val ≤ a.val then ofNat? (a.val - b.val) else none

def succ? (e : Exponent) : Option Exponent :=
  ofNat? (e.val + 1)

/-- The predecessor; that of zero is zero. -/
def pred (e : Exponent) : Exponent :=
  ⟨e.val - 1, Nat.le_trans (Nat.sub_le _ _) e.val_le⟩

def read (text : List Char) : Except Text.IntegerError Exponent := do
  let n ← Text.readNatural 4294967295 text
  match ofNat? n with
  | some e => return e
  | none => throw .positiveOverflow

def print (e : Exponent) : List Char :=
  Text.printNatural e.val

end Exponent

/-! Single terms `c*x^e`. -/

/-- A coefficient of zero or NaN comes with exponent zero, so equal values are
equal terms. -/
structure Term where
  coeff : Coeff
  exponent : Exponent
  exponent_eq_zero : coeff = 0 ∨ coeff = .nan → exponent = 0
deriving DecidableEq

namespace Term

/-- The term `coeff * x^exponent`; the exponent is dropped when the coefficient
is zero or NaN. -/
def make (coeff : Coeff) (exponent : Exponent) : Term :=
  if trivial : coeff = 0 ∨ coeff = .nan then ⟨coeff, 0, fun _ => rfl⟩
  else ⟨coeff, exponent, fun h => absurd h trivial⟩

@[simp] theorem make_coeff (coeff : Coeff) (exponent : Exponent) :
    (make coeff exponent).coeff = coeff := by
  unfold make
  split <;> rfl

theorem make_exponent {coeff : Coeff} {exponent : Exponent}
    (nonzero : coeff ≠ 0) (finite : coeff ≠ .nan) :
    (make coeff exponent).exponent = exponent := by
  simp [make, nonzero, finite]

instance : Zero Term := ⟨⟨0, 0, fun _ => rfl⟩⟩

instance : Inhabited Term := ⟨0⟩

def nan : Term := ⟨.nan, 0, fun _ => rfl⟩

def isNaN (t : Term) : Bool :=
  t.coeff.isNaN

def isZero (t : Term) : Bool :=
  t.coeff.isZero

def neg (t : Term) : Term :=
  make (-t.coeff) t.exponent

/-- The derivative `(c*e)*x^(e-1)`; constants give the zero term. -/
def derivative (t : Term) : Term :=
  if t.isNaN then nan
  else make (t.coeff * Coeff.ofInt t.exponent.val) t.exponent.pred

end Term

/-! The text of a term: `NaN`, `C`, `C*x`, `C*x^E`, `x` or `x^E`, the last two
also after a minus sign. -/

inductive ReadError where
  | empty
  | coefficient (cause : Coeff.ReadError)
  | exponent (term : String) (cause : Text.IntegerError)
  | malformedTerm (term : String)
  /-- A sign at a byte offset of the text with no term after it. -/
  | danglingSign (sign : Char) (offset : Nat)
deriving DecidableEq

def ReadError.message : ReadError → String
  | empty => "empty polynomial expression"
  | coefficient cause => "invalid coefficient: " ++ cause.message
  | exponent term _ => "invalid exponent in term `" ++ term ++ "`"
  | malformedTerm term => "malformed term `" ++ term ++ "`"
  | danglingSign sign offset =>
      "`" ++ String.singleton sign ++ "` at offset " ++ toString offset ++
        " is not followed by a term"

namespace Term

/-- What stands before the variable: nothing, a minus sign, or a coefficient and
a multiplication sign. -/
def readHead (whole head : List Char) : Except ReadError Coeff :=
  if head = [] then .ok 1
  else if head = ['-'] then .ok (-1)
  else if head.getLast? = some '*' then
    (Coeff.read head.dropLast).mapError .coefficient
  else .error (.malformedTerm (String.ofList whole))

/-- What stands after the variable: nothing, or a caret and an unsigned exponent. -/
def readTail (whole : List Char) : List Char → Except ReadError Exponent
  | [] => .ok 1
  | '^' :: digits =>
      if digits.head? = some '+' then .error (.malformedTerm (String.ofList whole))
      else (Exponent.read digits).mapError (.exponent (String.ofList whole))
  | _ => .error (.malformedTerm (String.ofList whole))

/-- Reads a term around its first `x`; a fault before the variable is reported
before one after it. -/
def read (text : List Char) : Except ReadError Term :=
  if text = [] then .error .empty
  else
    match text.dropWhile (fun c => decide (c ≠ 'x')) with
    | [] => do
        let coeff ← (Coeff.read text).mapError .coefficient
        return make coeff 0
    | _ :: tail => do
        let coeff ← readHead text (text.takeWhile (fun c => decide (c ≠ 'x')))
        let exponent ← readTail text tail
        return make coeff exponent

def printUnsigned (coeff : Coeff) (exponent : Exponent) : List Char :=
  let power := if exponent = 1 then ['x'] else 'x' :: '^' :: exponent.print
  if exponent = 0 then coeff.print
  else if coeff.isOne then power
  else coeff.print ++ '*' :: power

/-- A negative coefficient is written as a minus sign and its negation. -/
def print (t : Term) : List Char :=
  if t.isNaN then Coeff.nanText
  else if t.coeff.isNegative then '-' :: printUnsigned (-t.coeff) t.exponent
  else printUnsigned t.coeff t.exponent

instance : ToString Term := ⟨fun t => String.ofList t.print⟩

end Term

end ExactPoly
