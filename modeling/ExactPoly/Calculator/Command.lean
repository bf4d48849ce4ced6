import ExactPoly.Calculator.Stack
import ExactPoly.Decimal

namespace ExactPoly

/-! The command language.

A line is a sequence of words in postfix order, up to a comment sign.  A word
is a keyword, or else the text of a polynomial to push.  `push`, `eval` and
`defint` also take the words after them.
-/

/-- What the calculator reports and survives. -/
inductive CalculatorError where
  | stack (cause : StackError)
  /-- A word that is neither a command nor a polynomial. -/
  | polynomial (word : String) (cause : ReadError)
  | number (word : String)
  /-- A command with fewer words after it than it takes. -/
  | missingArgument (command : String) (expected : Nat)
deriving DecidableEq

def CalculatorError.message : CalculatorError → String
  | stack cause => cause.message
  | polynomial word cause => "cannot parse `" ++ word ++ "`: " ++ cause.message
  | number word => "invalid number `" ++ word ++ "`"
  | missingArgument command expected =>
      "`" ++ command ++ "` expects " ++ toString expected ++ " argument(s)"

inductive Command where
  | push (p : Poly)
  | add
  | sub
  | mul
  | div
  | derivative
  | antiderivative
  | dup
  | swap
  | pop
  | clear
  | eval (x : Float)
  | integrate (lower upper : Float)
  | print
  | list

namespace Command

def keywords : List (String × Command) :=
  [("add", .add), ("+", .add), ("sub", .sub), ("-", .sub), ("mul", .mul), ("*", .mul),
    ("div", .div), ("/", .div), ("diff", .derivative), ("d", .derivative),
    ("integ", .antiderivative), ("i", .antiderivative), ("dup", .dup), ("swap", .swap),
    ("pop", .pop), ("clear", .clear), ("print", .print), ("p", .print),
    ("stack", .list), ("s", .list)]

/-- The number of words that a word takes as its arguments. -/
def arity (word : List Char) : Nat :=
  if word = "push".toList then 1
  else if word = "eval".toList then 1
  else if word = "defint".toList then 2
  else 0

def readPoly (word : List Char) : Except CalculatorError Poly :=
  (Poly.read word).mapError (.polynomial (String.ofList word))

def readNumber (command : String) (expected : Nat) :
    Option (List Char) → Except CalculatorError Float
  | none => .error (.missingArgument command expected)
  | some word =>
      match Decimal.read word with
      | some x => .ok x
      | none => .error (.number (String.ofList word))

/-- The command that a word stands for, given the words after it. -/
def ofWord (word : List Char) (rest : List (List Char)) : Except CalculatorError Command :=
  match keywords.lookup (String.ofList word) with
  | some command => .ok command
  | none =>
      if word = "push".toList then
        match rest with
        | [] => .error (.missingArgument "push" 1)
        | text :: _ => (readPoly text).map push
      else if word = "eval".toList then
        (readNumber "eval" 1 rest[0]?).map eval
      else if word = "defint".toList then do
        let lower ← readNumber "defint" 2 rest[0]?
        let upper ← readNumber "defint" 2 rest[1]?
        return integrate lower upper
      else (readPoly word).map push

/-- All commands of a sequence of words; the first malformed one decides the error. -/
def ofWords : List (List Char) → Except CalculatorError (List Command)
  | [] => .ok []
  | word :: rest => do
      let command ← ofWord word rest
      let commands ← ofWords (rest.drop (arity word))
      return command :: commands
termination_by words => words.length
decreasing_by simp only [List.length_drop, List.length_cons]; omega

def code (line : List Char) : List Char :=
  line.takeWhile (fun c => decide (c ≠ '#'))

def readLine (line : List Char) : Except CalculatorError (List Command) :=
  ofWords (Text.words (code line))

/-- The first command of a text; words after it and its arguments are not
looked at, and there are no comments. -/
def readFirst (text : List Char) : Except CalculatorError Command :=
  match Text.words text with
  | [] => .error (.missingArgument "command" 1)
  | word :: rest => ofWord word rest

end Command

end ExactPoly
