import Mathlib.Data.List.Basic
import ExactPoly.Calculator.Execution

namespace ExactPoly

/-! What one command does.

A command takes its operands off the stack and puts its results in their place,
and what is below them does not matter to it.  `Execution` says so once for all
commands, and everything about runs follows from it.
-/

namespace Command

/-- The number of polynomials that a command takes from the stack. -/
def operands : Command → Nat
  | push _ | clear | list => 0
  | derivative | antiderivative | dup | pop | eval _ | integrate _ _ | print => 1
  | add | sub | mul | div | swap => 2

/-- The results of a command from its operands, the lowest first, and its output.
`clear` and `list`, which concern the whole stack, are left out. -/
def effect : Command → List Poly → Except Fault (List Poly × Option Output)
  | push p, [] => .ok ([p], none)
  | add, [p, q] => .ok ([p.add q], none)
  | sub, [p, q] => .ok ([p.sub q], none)
  | mul, [p, q] => (p.mul q).map ([·], none)
  | div, [p, q] => (p.div q).map ([·], none)
  | derivative, [p] => .ok ([p.derivative], none)
  | antiderivative, [p] => (p.antiderivative 0).map ([·], none)
  | dup, [p] => .ok ([p, p], none)
  | swap, [p, q] => .ok ([q, p], none)
  | pop, [_] => .ok ([], none)
  | eval x, [p] => .ok ([p], some (.number (p.eval x)))
  | integrate lower upper, [p] =>
      (p.integrate lower upper).map fun x => ([p], some (.number x))
  | print, [p] => .ok ([p], some (.poly p))
  | _, polys => .ok (polys, none)

end Command

namespace Stack

variable {s below : Stack} {command : Command} {taken : List Poly}

def pushAll (s : Stack) (polys : List Poly) : Stack :=
  polys.foldl push s

theorem bottomFirst_pushAll (s : Stack) (polys : List Poly) :
    (s.pushAll polys).bottomFirst = s.bottomFirst ++ polys := by
  induction polys generalizing s with
  | nil => exact (List.append_nil _).symm
  | cons p rest ih =>
      have pushed : (s.push p).bottomFirst = s.bottomFirst ++ [p] := List.reverse_cons
      rw [pushAll, List.foldl_cons, ← pushAll, ih, pushed, List.append_assoc]
      rfl

theorem length_bottomFirst (s : Stack) : s.bottomFirst.length = s.size :=
  List.length_reverse

theorem bottomFirst_injective {s t : Stack} (same : s.bottomFirst = t.bottomFirst) : s = t := by
  cases s
  cases t
  exact congrArg mk (List.reverse_injective same)

theorem exists_pushAll {n : Nat} (enough : n ≤ s.size) :
    ∃ below taken, s = pushAll below taken ∧ taken.length = n := by
  refine ⟨⟨s.polys.drop n⟩, (s.polys.take n).reverse, bottomFirst_injective ?_, ?_⟩
  · rw [bottomFirst_pushAll, bottomFirst, bottomFirst, ← List.reverse_append,
      List.take_append_drop]
  · rw [List.length_reverse, List.length_take]
    exact Nat.min_eq_left enough

theorem polys_of_short (short : s.size < command.operands) :
    s.polys = [] ∨ command.operands = 2 ∧ ∃ top, s.polys = [top] := by
  have most : command.operands ≤ 2 := by
    cases command <;> exact Nat.le_of_ble_eq_true rfl
  have lengths : s.polys.length = 0 ∨ command.operands = 2 ∧ s.polys.length = 1 := by
    change s.polys.length < command.operands at short
    omega
  exact lengths.imp List.length_eq_zero_iff.mp (And.imp_right List.length_eq_one_iff.mp)

theorem execute_underflow (short : s.size < command.operands) :
    s.execute command = .ok ⟨s, .error (.stack (.underflow command.operands s.size))⟩ := by
  have shape := polys_of_short short
  obtain ⟨polys⟩ := s
  rcases shape with rfl | ⟨two, top, rfl⟩
  · cases command with
    | push | clear | list => exact absurd short (Nat.not_lt_zero _)
    | _ => rfl
  · cases command with
    | add | sub | mul | div | swap => rfl
    | _ => contradiction

theorem unary_push (s : Stack) (p : Poly) (operation : Poly → Except Fault Poly) :
    (s.push p).unary operation = (operation p).map fun result => ⟨s.push result, .ok ()⟩ :=
  rfl

theorem binary_push (s : Stack) (p q : Poly) (operation : Poly → Poly → Except Fault Poly) :
    ((s.push p).push q).binary operation =
      (operation p q).map fun result => ⟨s.push result, .ok ()⟩ :=
  rfl

theorem peek_push (s : Stack) (p : Poly) : (s.push p).peek = .ok p :=
  rfl

theorem execute_pushAll (enough : taken.length = command.operands) (notClear : command ≠ .clear)
    (notList : command ≠ .list) :
    (below.pushAll taken).execute command =
      (command.effect taken).map fun (results, output) => ⟨below.pushAll results, .ok output⟩ := by
  cases command with
  | clear => contradiction
  | list => contradiction
  | push =>
      obtain rfl := List.length_eq_zero_iff.mp enough
      rfl
  | derivative | dup | pop | eval | print =>
      obtain ⟨top, rfl⟩ := List.length_eq_one_iff.mp enough
      rfl
  | antiderivative =>
      obtain ⟨top, rfl⟩ := List.length_eq_one_iff.mp enough
      change (below.push top).execute _ = _
      simp only [execute, run, antiderivative, unary_push, Command.effect]
      cases top.antiderivative 0 <;> rfl
  | integrate lower upper =>
      obtain ⟨top, rfl⟩ := List.length_eq_one_iff.mp enough
      change (below.push top).execute _ = _
      simp only [execute, run, peek_push, Command.effect]
      cases top.integrate lower upper <;> rfl
  | add | sub | swap =>
      obtain ⟨second, top, rfl⟩ := List.length_eq_two.mp enough
      rfl
  | mul =>
      obtain ⟨second, top, rfl⟩ := List.length_eq_two.mp enough
      change ((below.push second).push top).execute _ = _
      simp only [execute, run, mul, binary_push, Command.effect]
      cases second.mul top <;> rfl
  | div =>
      obtain ⟨second, top, rfl⟩ := List.length_eq_two.mp enough
      change ((below.push second).push top).execute _ = _
      simp only [execute, run, div, binary_push, Command.effect]
      cases second.div top <;> rfl

/-- The ways in which a command can run: it lacks operands, it concerns the whole
stack, or it replaces its operands. -/
inductive Execution (s : Stack) : Command → Except Fault (Outcome (Option Output)) → Prop where
  | underflow {command : Command} (short : s.size < command.operands) :
      Execution s command
        (.ok ⟨s, .error (.stack (.underflow command.operands s.size))⟩)
  | clear : Execution s .clear (.ok ⟨empty, .ok none⟩)
  | list : Execution s .list (.ok ⟨s, .ok (some (.stack s))⟩)
  | replaced {command : Command} {below : Stack} {taken : List Poly}
      (split : s = below.pushAll taken) (enough : taken.length = command.operands)
      (notClear : command ≠ .clear) (notList : command ≠ .list) :
      Execution s command
        ((command.effect taken).map fun (results, output) =>
          ⟨below.pushAll results, .ok output⟩)

theorem execution (s : Stack) (command : Command) : Execution s command (s.execute command) := by
  by_cases short : s.size < command.operands
  · rw [execute_underflow short]
    exact .underflow short
  · obtain ⟨below, taken, rfl, enough⟩ := exists_pushAll (Nat.le_of_not_lt short)
    by_cases whole : command = .clear ∨ command = .list
    · rcases whole with rfl | rfl
      · exact .clear
      · exact .list
    · obtain ⟨notClear, notList⟩ := not_or.mp whole
      rw [execute_pushAll enough notClear notList]
      exact .replaced rfl enough notClear notList

end Stack

end ExactPoly
