import ExactPoly.Proofs.Calculator.Reachable
import ExactPoly.Proofs.Poly.Checked

namespace ExactPoly.Stack

/-! Execution with checks of the stack.

After each change of the stack all its polynomials are checked, in addition to
the checks of the operations on them.  On the stacks that a calculator can get to
all these checks succeed.
-/

namespace Checked

/-- A changed stack, with the check that it holds canonical polynomials only. -/
def settle (s : Stack) : Except Stop (Outcome (Option Output)) :=
  if s.polys.all Poly.isCanonical then .ok ⟨s, .ok none⟩ else .error (.malformedStack s)

def unary (s : Stack) (operation : Poly → Except Stop Poly) :
    Except Stop (Outcome (Option Output)) :=
  match s.takeOne with
  | ⟨rest, .error cause⟩ => .ok ⟨rest, .error (.stack cause)⟩
  | ⟨rest, .ok top⟩ => do
      let result ← operation top
      settle (rest.push result)

def binary (s : Stack) (operation : Poly → Poly → Except Stop Poly) :
    Except Stop (Outcome (Option Output)) :=
  match s.takeTwo with
  | ⟨rest, .error cause⟩ => .ok ⟨rest, .error (.stack cause)⟩
  | ⟨rest, .ok (second, top)⟩ => do
      let result ← operation second top
      settle (rest.push result)

def rearrange {α : Type} (change : Change α) : Except Stop (Outcome (Option Output)) :=
  match change with
  | ⟨after, .error cause⟩ => .ok ⟨after, .error (.stack cause)⟩
  | ⟨after, .ok _⟩ => settle after

def execute (s : Stack) : Command → Except Stop (Outcome (Option Output))
  | .push p => settle (s.push p)
  | .add => binary s Poly.Checked.add
  | .sub => binary s Poly.Checked.sub
  | .mul => binary s Poly.Checked.mul
  | .div => binary s Poly.Checked.div
  | .derivative => unary s Poly.Checked.derivative
  | .antiderivative => unary s (Poly.Checked.antiderivative · 0)
  | .dup => rearrange s.dup
  | .swap => rearrange s.swap
  | .pop => rearrange s.pop
  | .clear => settle empty
  | .integrate lower upper =>
      match s.peek with
      | .error cause => .ok ⟨s, .error (.stack cause)⟩
      | .ok top => do
          let x ← Poly.Checked.integrate top lower upper
          return ⟨s, .ok (some (.number x))⟩
  | command => (s.execute command).mapError .fault

variable {s below : Stack} {command : Command} {checked : Except Stop Poly}

theorem settle_eq (held : s.Grounded) : settle s = .ok ⟨s, .ok none⟩ := by
  refine if_pos (List.all_eq_true.mpr fun p member => ?_)
  exact (Poly.isCanonical_iff p).mpr (held p member).wellFormed.canonical

theorem execute_underflow (short : s.size < command.operands) :
    execute s command = .ok ⟨s, .error (.stack (.underflow command.operands s.size))⟩ := by
  have shape := polys_of_short short
  obtain ⟨polys⟩ := s
  rcases shape with rfl | ⟨two, top, rfl⟩
  · cases command with
    | push | clear | list => exact absurd short (Nat.not_lt_zero _)
    | _ => rfl
  · cases command with
    | add | sub | mul | div | swap => rfl
    | _ => contradiction

theorem settle_of_execute {after : Stack} (held : s.Grounded) (grounded : command.Grounded)
    (executed : s.execute command = .ok ⟨after, .ok none⟩) :
    settle after = (s.execute command).mapError .fault := by
  rw [executed]
  exact settle_eq (execute_grounded held grounded executed)

/-- A checked operation and the check of the stack with its result. -/
theorem settle_push_of_execute (computed : Except Fault Poly) (held : s.Grounded)
    (grounded : command.Grounded)
    (executed : s.execute command = computed.map fun r => ⟨below.push r, .ok none⟩)
    (agrees : checked = computed.mapError .fault) :
    (checked >>= fun result => settle (below.push result)) =
      (s.execute command).mapError .fault := by
  subst checked
  cases computed with
  | error cause =>
      rw [executed]
      rfl
  | ok r => exact settle_of_execute held grounded executed

theorem execute_eq (held : s.Grounded) (grounded : command.Grounded) :
    execute s command = (s.execute command).mapError .fault := by
  by_cases short : s.size < command.operands
  · rw [execute_underflow short, Stack.execute_underflow short]
    rfl
  · obtain ⟨below, taken, rfl, enough⟩ := exists_pushAll (Nat.le_of_not_lt short)
    have formed := wellFormed_of_grounded held
    cases command with
    | push | clear => exact settle_of_execute held grounded rfl
    | dup | pop =>
        obtain ⟨top, rfl⟩ := List.length_eq_one_iff.mp enough
        exact settle_of_execute held grounded rfl
    | swap =>
        obtain ⟨second, top, rfl⟩ := List.length_eq_two.mp enough
        exact settle_of_execute held grounded rfl
    | eval | print | list => rfl
    | derivative =>
        obtain ⟨top, rfl⟩ := List.length_eq_one_iff.mp enough
        exact settle_push_of_execute (.ok top.derivative) held grounded rfl
          (Poly.Checked.derivative_eq (formed top (by simp)))
    | antiderivative =>
        obtain ⟨top, rfl⟩ := List.length_eq_one_iff.mp enough
        refine settle_push_of_execute _ held grounded ?_
          (Poly.Checked.antiderivative_eq (formed top (by simp)) 0)
        rw [execute_pushAll enough Command.noConfusion Command.noConfusion, Command.effect]
        cases top.antiderivative 0 <;> rfl
    | integrate lower upper =>
        obtain ⟨top, rfl⟩ := List.length_eq_one_iff.mp enough
        have agrees := Poly.Checked.integrate_eq (formed top (by simp)) lower upper
        change (Poly.Checked.integrate top lower upper >>= fun x => _) = _
        rw [agrees, execute_pushAll enough Command.noConfusion Command.noConfusion, Command.effect]
        cases top.integrate lower upper <;> rfl
    | add =>
        obtain ⟨second, top, rfl⟩ := List.length_eq_two.mp enough
        exact settle_push_of_execute (.ok (second.add top)) held grounded rfl
          (Poly.Checked.add_eq (formed second (by simp)) top)
    | sub =>
        obtain ⟨second, top, rfl⟩ := List.length_eq_two.mp enough
        exact settle_push_of_execute (.ok (second.sub top)) held grounded rfl
          (Poly.Checked.sub_eq (formed second (by simp)) (formed top (by simp)))
    | mul =>
        obtain ⟨second, top, rfl⟩ := List.length_eq_two.mp enough
        refine settle_push_of_execute _ held grounded ?_ (Poly.Checked.mul_eq second top)
        rw [execute_pushAll enough Command.noConfusion Command.noConfusion, Command.effect]
        cases second.mul top <;> rfl
    | div =>
        obtain ⟨second, top, rfl⟩ := List.length_eq_two.mp enough
        refine settle_push_of_execute _ held grounded ?_
          (Poly.Checked.div_eq (formed second (by simp)) top)
        rw [execute_pushAll enough Command.noConfusion Command.noConfusion, Command.effect]
        cases second.div top <;> rfl

end Checked

end ExactPoly.Stack
