import ExactPoly.Calculator.Command

namespace ExactPoly

/-! Execution of commands against a stack.

A line is read as a whole before any of its commands runs.  A failing command
ends the line, which keeps the effects of the commands before it and discards
their outputs.
-/

inductive Output where
  | poly (p : Poly)
  | number (x : Float)
  | stack (s : Stack)

namespace Output

/-- One line per polynomial, the top first and numbered from zero. -/
def listing (s : Stack) : List (List Char) :=
  s.polys.zipIdx.map (fun (p, index) => Text.printNatural index ++ ':' :: ' ' :: p.print)

def print : Output → List Char
  | poly p => p.print
  | number x => Decimal.print x
  | stack s => if s.isEmpty then "(empty)".toList else ['\n'].intercalate (listing s)

end Output

/-- A change that has nothing to show. -/
def Change.silent {α : Type} (change : Change α) : Change (Option Output) :=
  ⟨change.stack, change.result.map (fun _ => none)⟩

/-- The stack after an execution, and what it produced or why it stopped. -/
structure Outcome (α : Type) where
  stack : Stack
  result : Except CalculatorError α

namespace Stack

/-- The stack that a command leaves, and its output if it has one. -/
def run (s : Stack) : Command → Except Fault (Change (Option Output))
  | .push p => .ok ⟨s.push p, .ok none⟩
  | .add => s.add.map Change.silent
  | .sub => s.sub.map Change.silent
  | .mul => s.mul.map Change.silent
  | .div => s.div.map Change.silent
  | .derivative => s.derivative.map Change.silent
  | .antiderivative => s.antiderivative.map Change.silent
  | .dup => .ok s.dup.silent
  | .swap => .ok s.swap.silent
  | .pop => .ok s.pop.silent
  | .clear => .ok ⟨empty, .ok none⟩
  | .eval x => .ok ⟨s, s.peek.map (fun top => some (.number (top.eval x)))⟩
  | .integrate lower upper =>
      match s.peek with
      | .error cause => .ok ⟨s, .error cause⟩
      | .ok top =>
          (top.integrate lower upper).map (fun x => ⟨s, .ok (some (.number x))⟩)
  | .print => .ok ⟨s, s.peek.map (fun top => some (.poly top))⟩
  | .list => .ok ⟨s, .ok (some (.stack s))⟩

def execute (s : Stack) (command : Command) : Except Fault (Outcome (Option Output)) :=
  (s.run command).map (fun change => ⟨change.stack, change.result.mapError .stack⟩)

def executeAll (s : Stack) : List Command → Except Fault (Outcome (List Output))
  | [] => .ok ⟨s, .ok []⟩
  | command :: commands =>
      match s.execute command with
      | .error cause => .error cause
      | .ok ⟨after, .error cause⟩ => .ok ⟨after, .error cause⟩
      | .ok ⟨after, .ok output⟩ =>
          (executeAll after commands).map (fun outcome =>
            { outcome with result := outcome.result.map (output.toList ++ ·) })

def executeLine (s : Stack) (line : List Char) : Except Fault (Outcome (List Output)) :=
  match Command.readLine line with
  | .error cause => .ok ⟨s, .error cause⟩
  | .ok commands => s.executeAll commands

end Stack

end ExactPoly
