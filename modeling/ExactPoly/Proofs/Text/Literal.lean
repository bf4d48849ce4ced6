import Mathlib.Algebra.Polynomial.Basic
import ExactPoly.Coeff

namespace ExactPoly

open Polynomial

/-! The grammar of polynomial texts, and what a text means.

A literal is a syntax tree.  `text` spells it out, `value` is its meaning in
exact arithmetic, and `Undefined` says that it has none.  Nothing here refers to
the readers: numbers are kept as the digits that are written.

In a polynomial a sign stands between two terms, so its literals have none inside.
A coefficient or a term on its own is a signed literal, with minus signs of its own.
-/

/-- A non-empty run of decimal digits that stands for a number up to `limit`. -/
structure Text.Numeral (limit : Nat) where
  digits : List Char
  nonempty : digits ≠ []
  decimal : ∀ c ∈ digits, c.isDigit = true
  bounded : Nat.ofDigitChars 10 digits 0 ≤ limit

def Text.Numeral.value {limit : Nat} (n : Text.Numeral limit) : Nat :=
  Nat.ofDigitChars 10 n.digits 0

/-- A numeral with an optional minus sign that stands for a signed 64-bit number. -/
inductive Text.Integer where
  | plain (magnitude : Text.Numeral 9223372036854775807)
  | minus (magnitude : Text.Numeral 9223372036854775808)

namespace Text.Integer

def text : Integer → List Char
  | plain magnitude => magnitude.digits
  | minus magnitude => '-' :: magnitude.digits

def value : Integer → Int
  | plain magnitude => magnitude.value
  | minus magnitude => -magnitude.value

end Text.Integer

namespace Coeff

/-- An unsigned coefficient: `NaN`, `N` or `N/N`. -/
inductive Literal where
  | nan
  | integer (num : Text.Numeral 9223372036854775807)
  | quotient (num den : Text.Numeral 9223372036854775807)

namespace Literal

def text : Literal → List Char
  | nan => nanText
  | integer num => num.digits
  | quotient num den => num.digits ++ '/' :: den.digits

def Undefined : Literal → Prop
  | nan => True
  | integer _ => False
  | quotient _ den => den.value = 0

def value : Literal → ℚ
  | nan => 0
  | integer num => num.value
  | quotient num den => num.value / den.value

end Literal

/-- A coefficient on its own: `NaN`, `I` or `I/I`. -/
inductive SignedLiteral where
  | nan
  | integer (num : Text.Integer)
  | quotient (num den : Text.Integer)

namespace SignedLiteral

def text : SignedLiteral → List Char
  | nan => nanText
  | integer num => num.text
  | quotient num den => num.text ++ '/' :: den.text

end SignedLiteral

end Coeff

namespace Term

/-- An unsigned term: `C`, or `x` with an optional `C*` before it and an optional
`^E` after it. -/
inductive Literal where
  | constant (coeff : Coeff.Literal)
  | power (coeff? : Option Coeff.Literal) (exponent? : Option (Text.Numeral 4294967295))

namespace Literal

def headText : Option Coeff.Literal → List Char
  | none => []
  | some coeff => coeff.text ++ ['*']

def tailText : Option (Text.Numeral 4294967295) → List Char
  | none => []
  | some exponent => '^' :: exponent.digits

def text : Literal → List Char
  | constant coeff => coeff.text
  | power coeff? exponent? => headText coeff? ++ 'x' :: tailText exponent?

def Undefined : Literal → Prop
  | constant coeff => coeff.Undefined
  | power coeff? _ => ∃ coeff ∈ coeff?, coeff.Undefined

/-- A missing coefficient and a missing exponent count as one. -/
noncomputable def value : Literal → ℚ[X]
  | constant coeff => C coeff.value
  | power coeff? exponent? =>
      monomial (exponent?.elim 1 Text.Numeral.value) (coeff?.elim 1 Coeff.Literal.value)

end Literal

/-- What stands before the variable of a term on its own: nothing, a minus sign, or
a coefficient and a multiplication sign. -/
inductive Head where
  | absent
  | minus
  | factor (coeff : Coeff.SignedLiteral)

def Head.text : Head → List Char
  | absent => []
  | minus => ['-']
  | factor coeff => coeff.text ++ ['*']

/-- A term on its own: `C`, or `x` after a head and with an optional `^E` after it. -/
inductive SignedLiteral where
  | constant (coeff : Coeff.SignedLiteral)
  | power (head : Head) (exponent? : Option (Text.Numeral 4294967295))

def SignedLiteral.text : SignedLiteral → List Char
  | constant coeff => coeff.text
  | power head exponent? => head.text ++ 'x' :: Literal.tailText exponent?

end Term

inductive Sign where
  | plus
  | minus

namespace Sign

def char : Sign → Char
  | plus => '+'
  | minus => '-'

def factor : Sign → ℚ
  | plus => 1
  | minus => -1

end Sign

namespace Poly

/-- Signed terms without blanks; only the first sign may be missing. -/
structure Literal where
  sign? : Option Sign
  first : Term.Literal
  rest : List (Sign × Term.Literal)

namespace Literal

def spell (signed : Sign × Term.Literal) : List Char :=
  signed.1.char :: signed.2.text

def text (l : Literal) : List Char :=
  l.sign?.toList.map Sign.char ++ l.first.text ++ l.rest.flatMap spell

def signed (l : Literal) : List (Sign × Term.Literal) :=
  (l.sign?.getD .plus, l.first) :: l.rest

noncomputable def sum (signed : List (Sign × Term.Literal)) : ℚ[X] :=
  (signed.map fun (sign, term) => C sign.factor * term.value).sum

end Literal

end Poly

end ExactPoly
