import ExactPoly.Arithmetic

namespace ExactPoly

/-! The calculator's stack.

Positions count from the top.  A binary operation takes the polynomial below
the top as its left operand.  Operands are counted before anything else, so an
operation that lacks some fails without looking at those it has.  What an
operation leaves is part of what it gives, also when it fails.
-/

inductive StackError where
  | underflow (needed available : Nat)
  | outOfRange (index length : Nat)
deriving DecidableEq

def StackError.message : StackError → String
  | underflow needed available =>
      "stack underflow: needs " ++ toString needed ++ " element(s), has " ++ toString available
  | outOfRange index length =>
      "index " ++ toString index ++ " is out of range for a stack of " ++ toString length

/-- The head of the list is the top. -/
structure Stack where
  polys : List Poly
deriving DecidableEq

/-- The stack that an operation leaves, and its result or the reason why it has none. -/
structure Change (α : Type) where
  stack : Stack
  result : Except StackError α

/-- How a look-up can fail: by an error, or by a fault, after which nothing is left. -/
inductive Failure (ε : Type) where
  | error (cause : ε)
  | fault (cause : Fault)

namespace Stack

def empty : Stack := ⟨[]⟩

def size (s : Stack) : Nat :=
  s.polys.length

def isEmpty (s : Stack) : Bool :=
  s.polys.isEmpty

def bottomFirst (s : Stack) : List Poly :=
  s.polys.reverse

def push (s : Stack) (p : Poly) : Stack :=
  ⟨p :: s.polys⟩

/-- Takes the top. -/
def takeOne (s : Stack) : Change Poly :=
  match s.polys with
  | top :: rest => ⟨⟨rest⟩, .ok top⟩
  | [] => ⟨s, .error (.underflow 1 0)⟩

/-- Takes the top two, of which the second comes first. -/
def takeTwo (s : Stack) : Change (Poly × Poly) :=
  match s.polys with
  | top :: second :: rest => ⟨⟨rest⟩, .ok (second, top)⟩
  | polys => ⟨s, .error (.underflow 2 polys.length)⟩

def pop (s : Stack) : Change Poly :=
  s.takeOne

def peek (s : Stack) : Except StackError Poly :=
  match s.polys with
  | top :: _ => .ok top
  | [] => .error (.underflow 1 0)

/-- The difference, unless it is negative. -/
def checkedSub (a b : Nat) : Option Nat :=
  if b ≤ a then some (a - b) else none

/-- The polynomial `index` places below the top, looked up by its place above the bottom.
Addresses are 64-bit words, and the number of places up to and including the addressed
one is formed first. -/
def nthFromTop (s : Stack) (index : UInt64) : Except (Failure StackError) Poly :=
  if index.toNat + 1 < 18446744073709551616 then
    match (checkedSub s.size (index.toNat + 1)).bind (fun place => s.bottomFirst[place]?) with
    | some p => .ok p
    | none => .error (.error (.outOfRange index.toNat s.size))
  else .error (.fault .addressOverflow)

def dup (s : Stack) : Change Unit :=
  match s.peek with
  | .error cause => ⟨s, .error cause⟩
  | .ok top => ⟨s.push top, .ok ()⟩

def swap (s : Stack) : Change Unit :=
  match s.takeTwo with
  | ⟨rest, .error cause⟩ => ⟨rest, .error cause⟩
  | ⟨rest, .ok (second, top)⟩ => ⟨(rest.push top).push second, .ok ()⟩

def unary (s : Stack) (operation : Poly → Except Fault Poly) : Except Fault (Change Unit) :=
  match s.takeOne with
  | ⟨rest, .error cause⟩ => .ok ⟨rest, .error cause⟩
  | ⟨rest, .ok top⟩ => (operation top).map (fun p => ⟨rest.push p, .ok ()⟩)

/-- Replaces the top two by `operation second top`. -/
def binary (s : Stack) (operation : Poly → Poly → Except Fault Poly) :
    Except Fault (Change Unit) :=
  match s.takeTwo with
  | ⟨rest, .error cause⟩ => .ok ⟨rest, .error cause⟩
  | ⟨rest, .ok (second, top)⟩ => (operation second top).map (fun p => ⟨rest.push p, .ok ()⟩)

def add (s : Stack) : Except Fault (Change Unit) :=
  s.binary (fun p q => .ok (p.add q))

def sub (s : Stack) : Except Fault (Change Unit) :=
  s.binary (fun p q => .ok (p.sub q))

def mul (s : Stack) : Except Fault (Change Unit) :=
  s.binary Poly.mul

def div (s : Stack) : Except Fault (Change Unit) :=
  s.binary Poly.div

def derivative (s : Stack) : Except Fault (Change Unit) :=
  s.unary (fun p => .ok p.derivative)

/-- The antiderivative of the top with constant term zero. -/
def antiderivative (s : Stack) : Except Fault (Change Unit) :=
  s.unary (fun p => p.antiderivative 0)

end Stack

end ExactPoly
