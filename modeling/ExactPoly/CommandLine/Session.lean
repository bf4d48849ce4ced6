import ExactPoly.Calculator.Execution
import ExactPoly.CommandLine.Options

namespace ExactPoly

def Output.render (outputs : List Output) : String :=
  String.join (outputs.map (fun output => String.ofList output.print ++ "\n"))

namespace CommandLine.Session

/-! The interactive session.

A session is a machine that the line editor drives: each line that is typed advances
it, until it is told to leave or the editor has no more lines.  It reports errors and
goes on with the stack that the failing command left.
-/

def helpLines : List String :=
  ["Words are read left to right; anything that is not a command is pushed.",
    "  x^2-1  push <poly>      push a polynomial",
    "  add +  sub -  mul *     combine the top two (second op top)",
    "  div /                   truncated quotient",
    "  diff d  integ i         derivative, antiderivative",
    "  dup  swap  pop  clear   stack manipulation",
    "  eval <x>                evaluate the top at x",
    "  defint <a> <b>          integral of the top from a to b",
    "  print p  stack s        show the top, show the whole stack",
    "  help  quit              this text, leave"]

/-- What a session writes on standard output, by the part that writes it. -/
inductive Piece where
  | banner
  | prompt
  | help
  | answer (outputs : List Output)
  | interrupted
  | endOfInput

def Piece.text : Piece → String
  | banner => "polycalc v0.1.0\nType help for commands, quit to leave.\n\n"
  | prompt => "poly> "
  | help => String.join (helpLines.map (· ++ "\n"))
  | answer outputs => Output.render outputs
  | interrupted => "CTRL-C\n"
  | endOfInput => "CTRL-D\n"

/-- Why the line editor gives no line. -/
inductive Interruption where
  | interrupted
  | endOfInput
  | failed (message : String)

/-- What the line editor gives from one prompt to the next. -/
abbrev Event := Except Interruption (List Char)

/-- All that is typed in a session, and why no line follows. -/
structure Typing where
  lines : List (List Char)
  last : Interruption

def Typing.events (typing : Typing) : List Event :=
  typing.lines.map .ok ++ [.error typing.last]

/-- A session so far.  One that is over has an exit and changes no more. -/
structure Transcript where
  stack : Stack
  written : List Piece
  complaints : List CalculatorError
  exit : Option Exit

/-- What is written only for a verbosity of at least `normal`. -/
def aside (verbosity : Verbosity) (piece : Piece) : List Piece :=
  if .normal ≤ verbosity then [piece] else []

/-- What a line shows that succeeds: its outputs, or the top if it has none. -/
def shown (after : Stack) (outputs : List Output) : List Output :=
  if outputs.isEmpty then
    match after.peek with
    | .ok top => [.poly top]
    | .error _ => []
  else outputs

namespace Transcript

def write (t : Transcript) (pieces : List Piece) : Transcript :=
  { t with written := t.written ++ pieces }

def leave (t : Transcript) (exit : Exit) : Transcript :=
  { t with exit := some exit }

def answer (t : Transcript) (outcome : Outcome (List Output)) : Transcript :=
  match outcome with
  | ⟨after, .ok outputs⟩ => { t with stack := after }.write [.answer (shown after outputs), .prompt]
  | ⟨after, .error cause⟩ =>
      { t with stack := after, complaints := t.complaints ++ [cause] }.write [.prompt]

/-- A line without the blanks around it. -/
def read (t : Transcript) (line : List Char) : Transcript :=
  if line = [] then t.write [.prompt]
  else if line = "quit".toList ∨ line = "exit".toList then t.leave .success
  else if line = "help".toList then t.write [.help, .prompt]
  else
    match t.stack.executeLine line with
    | .error fault => t.leave (.fault fault)
    | .ok outcome => t.answer outcome

def interrupt (t : Transcript) (verbosity : Verbosity) : Interruption → Transcript
  | .interrupted => (t.write (aside verbosity .interrupted)).leave .success
  | .endOfInput => (t.write (aside verbosity .endOfInput)).leave .success
  | .failed message => t.leave (.failure message)

def advance (verbosity : Verbosity) (t : Transcript) (event : Event) : Transcript :=
  if t.exit.isSome then t
  else
    match event with
    | .ok typed => t.read (Text.trim typed)
    | .error cause => t.interrupt verbosity cause

/-- The session with nothing written as yet. -/
def forget (t : Transcript) : Transcript :=
  { t with written := [], complaints := [] }

/-- The text of an error that the session survives. -/
def complaint (cause : CalculatorError) : String :=
  "Error: " ++ cause.message

def stdout (t : Transcript) : String :=
  String.join (t.written.map Piece.text)

def report (t : Transcript) : Report :=
  ⟨t.stdout, t.complaints.map complaint, t.exit.getD .success⟩

end Transcript

def start (verbosity : Verbosity) : Transcript :=
  ⟨.empty, aside verbosity .banner ++ [.prompt], [], none⟩

def run (verbosity : Verbosity) (typing : Typing) : Transcript :=
  typing.events.foldl (Transcript.advance verbosity) (start verbosity)

end CommandLine.Session

end ExactPoly
