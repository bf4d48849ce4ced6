import ExactPoly.Text

namespace ExactPoly.Decimal

/-! Reading decimal numbers as floats.

A number is an optional sign before a name (`inf`, `infinity` or `nan`, in any
case) or before digits, which may have a point before, among or after them and
an exponent at the end.  Its value is the nearest float, the one with an even
significand if two are equally near.
-/

/-- An unsigned number `digits * 10^exponent`. -/
structure Magnitude where
  digits : Nat
  exponent : Int

def natural (digits : List Char) : Nat :=
  Nat.ofDigitChars 10 digits 0

/-- An optional sign; true means minus. -/
def readSign : List Char → Bool × List Char
  | '-' :: rest => (true, rest)
  | '+' :: rest => (false, rest)
  | rest => (false, rest)

/-- A power of ten after the digits: nothing, or `e` and a signed run of digits. -/
def readPower : List Char → Option Int
  | [] => some 0
  | mark :: rest =>
      let (negative, digits) := readSign rest
      if (mark == 'e' || mark == 'E') && !digits.isEmpty && digits.all Char.isDigit then
        some (if negative then -(natural digits : Int) else natural digits)
      else none

def readMagnitude (text : List Char) : Option Magnitude :=
  let whole := text.takeWhile Char.isDigit
  let rest := text.dropWhile Char.isDigit
  let (fraction, rest) :=
    match rest with
    | '.' :: rest => (rest.takeWhile Char.isDigit, rest.dropWhile Char.isDigit)
    | rest => ([], rest)
  if whole.isEmpty && fraction.isEmpty then none
  else (readPower rest).map (fun power => ⟨natural (whole ++ fraction), power - fraction.length⟩)

def infinity : Float := 1.0 / 0.0

/-- The float nearest to a magnitude.  Powers of ten beyond every float are
settled by the decimal position of the leading digit. -/
def Magnitude.toFloat (m : Magnitude) : Float :=
  let position := (Text.printNatural m.digits).length + m.exponent
  if m.digits = 0 ∨ position < -400 then 0.0
  else if 400 < position then infinity
  else Float.ofScientific m.digits (decide (m.exponent < 0)) m.exponent.natAbs

def readUnsigned (text : List Char) : Option Float :=
  let name := text.map Char.toLower
  if name = "inf".toList ∨ name = "infinity".toList then some infinity
  else if name = "nan".toList then some (0.0 / 0.0)
  else (readMagnitude text).map Magnitude.toFloat

def read (text : List Char) : Option Float :=
  let (negative, rest) := readSign text
  (readUnsigned rest).map (fun x => if negative then -x else x)

/-! The shortest decimal text of a float.

The digits are the fewest that read back to the same float, and of those the
nearest to it; of two equally near the larger is taken.  They are written
positionally, never with an exponent.
-/

/-- The parts of a float: a class, a sign and a magnitude `significand * 2^exponent`. -/
inductive Parts where
  | nan
  | infinite (negative : Bool)
  | finite (negative : Bool) (significand : Nat) (exponent : Int)
deriving DecidableEq

def Parts.ofBits (bits : Nat) : Parts :=
  let negative := decide (bits / Nat.pow 2 63 % 2 = 1)
  let biased : Nat := bits / Nat.pow 2 52 % Nat.pow 2 11
  let fraction : Nat := bits % Nat.pow 2 52
  if biased = 2047 then
    if fraction = 0 then .infinite negative else .nan
  else if biased = 0 then .finite negative fraction (-1074)
  else .finite negative (fraction + Nat.pow 2 52) ((biased : Int) - 1075)

/-- The reals that read back to a positive float, as multiples of `2^scale`. -/
structure Rounding where
  low : Nat
  value : Nat
  high : Nat
  scale : Int
  /-- Whether both ends belong to the interval. -/
  closed : Bool

/-- Half a step to either side, but a quarter below a power of two; the ends
round to the float itself when its significand is even. -/
def Rounding.around (significand : Nat) (exponent : Int) : Rounding where
  low := 4 * significand - (if significand = Nat.pow 2 52 ∧ -1074 < exponent then 1 else 2)
  value := 4 * significand
  high := 4 * significand + 2
  scale := exponent - 2
  closed := significand % 2 == 0

/-- Decimal digits with a position: `digits * 10^position`. -/
structure Scaled where
  digits : Nat
  position : Int

namespace Rounding

/-- The multiple of `10^position` that reads back and lies nearest to the value,
if there is one.  Only the two neighbours of the value can be nearest. -/
def onGrid? (r : Rounding) (position : Int) : Option Scaled :=
  let factor := Nat.pow 2 r.scale.toNat * Nat.pow 10 (-position).toNat
  let unit := Nat.pow 10 position.toNat * Nat.pow 2 (-r.scale).toNat
  let inside (x : Nat) : Bool :=
    if r.closed then r.low * factor ≤ x && x ≤ r.high * factor
    else r.low * factor < x && x < r.high * factor
  let below := r.value * factor / unit
  let above := below + 1
  let belowNearer := decide (2 * (r.value * factor) < (below + above) * unit)
  if inside (below * unit) && (belowNearer || !inside (above * unit)) then some ⟨below, position⟩
  else if inside (above * unit) then some ⟨above, position⟩
  else none

/-- The first hit on ever finer grids, from `10^position` down by `steps` powers of ten. -/
def firstHit (r : Rounding) : Nat → Int → Scaled
  | 0, position => (r.onGrid? position).getD ⟨0, 0⟩
  | steps + 1, position =>
      match r.onGrid? position with
      | some hit => hit
      | none => firstHit r steps (position - 1)

/-- A power of ten above the whole interval. -/
def topPosition (r : Rounding) : Int :=
  (r.high.log2 + 1 + r.scale) * 30103 / 100000 + 1

/-- The coarsest grid with a hit has the fewest digits.  Steps between floats
exceed `10^-324`, so that grid always has one. -/
def shortest (r : Rounding) : Scaled :=
  r.firstHit (r.topPosition + 324).toNat r.topPosition

end Rounding

def Scaled.print (s : Scaled) : List Char :=
  let digits := Text.printNatural s.digits
  let places := (-s.position).toNat
  if places = 0 then digits ++ List.replicate s.position.toNat '0'
  else
    let padded := List.replicate (places + 1 - digits.length) '0' ++ digits
    padded.take (padded.length - places) ++ '.' :: padded.drop (padded.length - places)

def Parts.print : Parts → List Char
  | nan => ['N', 'a', 'N']
  | infinite negative => if negative then "-inf".toList else "inf".toList
  | finite negative significand exponent =>
      let magnitude :=
        if significand = 0 then ['0'] else (Rounding.around significand exponent).shortest.print
      if negative then '-' :: magnitude else magnitude

def print (x : Float) : List Char :=
  (Parts.ofBits x.toBits.toNat).print

end ExactPoly.Decimal
