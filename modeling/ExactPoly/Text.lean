namespace ExactPoly.Text

/-! Blank characters and the words between them.

A character is blank when it has the Unicode property White_Space.  The table
below lists that property's 25 code points; the zero width space and the byte
order mark are not among them.
-/

def isBlank (c : Char) : Bool :=
  let code := c.toNat
  (9 ≤ code && code ≤ 13) || code == 0x20 || code == 0x85 || code == 0xA0 ||
    code == 0x1680 || (0x2000 ≤ code && code ≤ 0x200A) || code == 0x2028 ||
    code == 0x2029 || code == 0x202F || code == 0x205F || code == 0x3000

def words (text : List Char) : List (List Char) :=
  (text.splitOnP isBlank).filter (fun word => !word.isEmpty)

def trim (text : List Char) : List Char :=
  ((text.dropWhile isBlank).reverse.dropWhile isBlank).reverse

/-! Lines of a text or of raw bytes.

A line ends at a line feed, and one carriage return just before that line feed
belongs to the line end.  What follows the last line feed is a line of its own,
kept as it is, unless nothing follows.
-/

section

variable {α : Type} [DecidableEq α]

/-- Removes the carriage return of a line end whose line feed is already gone. -/
def dropReturn (carriageReturn : α) (line : List α) : List α :=
  if line.getLast? = some carriageReturn then line.dropLast else line

/-- Lines over any alphabet with the two marks `lineFeed` and `carriageReturn`. -/
def linesOf (lineFeed carriageReturn : α) (input : List α) : List (List α) :=
  let parts := input.splitOnP (fun mark => decide (mark = lineFeed))
  parts.dropLast.map (dropReturn carriageReturn) ++
    parts.getLast?.toList.filter (fun rest => !rest.isEmpty)

end

def lines (text : List Char) : List (List Char) :=
  linesOf '\n' '\r' text

/-- Why a line of raw bytes is no line of text. -/
inductive LineError where
  | invalidText
deriving DecidableEq

def decodeLine (bytes : List UInt8) : Except LineError (List Char) :=
  match String.fromUTF8? ⟨bytes.toArray⟩ with
  | some text => .ok text.toList
  | none => .error .invalidText

/-- The lines of raw bytes, which are split before they are decoded. -/
def byteLines (input : ByteArray) : List (Except LineError (List Char)) :=
  (linesOf 10 13 input.data.toList).map decodeLine

/-! Decimal integers of bounded magnitude.

Digits are read from left to right.  At each character a non-digit is refused
before the bound is tested, so the first fault in the text decides the error.
-/

inductive IntegerError where
  | empty
  | invalidDigit
  | positiveOverflow
  | negativeOverflow
deriving DecidableEq

/-- Appends the digits of a text to `value` while the result stays within `limit`. -/
def readDigits (limit : Nat) (overflow : IntegerError) (value : Nat) :
    List Char → Except IntegerError Nat
  | [] => .ok value
  | c :: rest =>
      if c.isDigit then
        let next := 10 * value + (c.toNat - '0'.toNat)
        if next ≤ limit then readDigits limit overflow next rest else .error overflow
      else .error .invalidDigit

def readNatural (limit : Nat) : List Char → Except IntegerError Nat
  | [] => .error .empty
  | digits => readDigits limit .positiveOverflow 0 digits

/-- A signed 64-bit integer with an optional minus sign. -/
def readInteger : List Char → Except IntegerError Int
  | [] => .error .empty
  | ['-'] => .error .invalidDigit
  | '-' :: digits =>
      (readDigits 9223372036854775808 .negativeOverflow 0 digits).map (fun n => -(n : Int))
  | digits =>
      (readDigits 9223372036854775807 .positiveOverflow 0 digits).map (fun n => (n : Int))

def printNatural (n : Nat) : List Char :=
  Nat.toDigits 10 n

def printInteger (n : Int) : List Char :=
  if n < 0 then '-' :: printNatural n.natAbs else printNatural n.natAbs

end ExactPoly.Text
