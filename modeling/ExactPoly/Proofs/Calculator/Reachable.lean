import ExactPoly.Proofs.Calculator.Step
import ExactPoly.Proofs.Poly.Reachable

namespace ExactPoly

/-! The stacks that a calculator can get to.

Commands push polynomials of any history, and a command that fails counts as a
step too.  All stacks reached hold such polynomials only, and all stacks of such
polynomials are reached.
-/

def Command.Grounded (command : Command) : Prop :=
  ∀ p, command = push p → Poly.Reachable p

namespace Stack

/-- Obtained from the empty stack by finitely many commands. -/
inductive Reachable : Stack → Prop where
  | empty : Reachable empty
  | execute {s : Stack} {command : Command} {outcome : Outcome (Option Output)}
      (before : Reachable s) (grounded : command.Grounded)
      (executed : s.execute command = .ok outcome) : Reachable outcome.stack

def Grounded (s : Stack) : Prop :=
  ∀ p ∈ s.polys, Poly.Reachable p

variable {s below : Stack} {command : Command} {taken results : List Poly} {output : Option Output}
  {outcome : Outcome (Option Output)}

theorem grounded_pushAll (s : Stack) (polys : List Poly) :
    (s.pushAll polys).Grounded ↔ s.Grounded ∧ ∀ p ∈ polys, Poly.Reachable p := by
  have inOrder (t : Stack) : t.Grounded ↔ ∀ p ∈ t.bottomFirst, Poly.Reachable p :=
    forall_congr' fun _ => imp_congr_left List.mem_reverse.symm
  rw [inOrder, inOrder, bottomFirst_pushAll, List.forall_mem_append]

theorem wellFormed_of_grounded (held : (below.pushAll taken).Grounded) :
    ∀ p ∈ taken, p.WellFormed := fun p member =>
  (((grounded_pushAll below taken).mp held).2 p member).wellFormed

theorem effect_grounded (grounded : command.Grounded) (held : ∀ p ∈ taken, Poly.Reachable p)
    (enough : taken.length = command.operands)
    (computed : command.effect taken = .ok (results, output)) :
    ∀ p ∈ results, Poly.Reachable p := by
  have single {p : Poly} (reachable : Poly.Reachable p) : ∀ r ∈ [p], Poly.Reachable r :=
    List.forall_mem_singleton.mpr reachable
  cases command with
  | clear | list =>
      cases computed
      exact held
  | push p =>
      obtain rfl := List.length_eq_zero_iff.mp enough
      cases computed
      exact single (grounded p rfl)
  | derivative =>
      obtain ⟨top, rfl⟩ := List.length_eq_one_iff.mp enough
      cases computed
      exact single (held top (by simp)).derivative
  | antiderivative =>
      obtain ⟨top, rfl⟩ := List.length_eq_one_iff.mp enough
      obtain ⟨r, integrated, same⟩ := map_ok_iff.mp computed
      cases same
      exact single (.antiderivative 0 (held top (by simp)) integrated)
  | dup =>
      obtain ⟨top, rfl⟩ := List.length_eq_one_iff.mp enough
      cases computed
      simpa using held
  | pop =>
      obtain ⟨top, rfl⟩ := List.length_eq_one_iff.mp enough
      cases computed
      exact List.forall_mem_nil _
  | eval | print =>
      obtain ⟨top, rfl⟩ := List.length_eq_one_iff.mp enough
      cases computed
      exact held
  | integrate =>
      obtain ⟨top, rfl⟩ := List.length_eq_one_iff.mp enough
      obtain ⟨x, -, same⟩ := map_ok_iff.mp computed
      cases same
      exact held
  | add =>
      obtain ⟨p, q, rfl⟩ := List.length_eq_two.mp enough
      cases computed
      exact single ((held p (by simp)).add (held q (by simp)))
  | sub =>
      obtain ⟨p, q, rfl⟩ := List.length_eq_two.mp enough
      cases computed
      exact single ((held p (by simp)).sub (held q (by simp)))
  | mul =>
      obtain ⟨p, q, rfl⟩ := List.length_eq_two.mp enough
      obtain ⟨r, multiplied, same⟩ := map_ok_iff.mp computed
      cases same
      exact single (.mul (held p (by simp)) (held q (by simp)) multiplied)
  | div =>
      obtain ⟨p, q, rfl⟩ := List.length_eq_two.mp enough
      obtain ⟨r, divided, same⟩ := map_ok_iff.mp computed
      cases same
      exact single (.div (held p (by simp)) (held q (by simp)) divided)
  | swap =>
      obtain ⟨p, q, rfl⟩ := List.length_eq_two.mp enough
      cases computed
      simpa [and_comm] using held

theorem execute_grounded (held : s.Grounded) (grounded : command.Grounded)
    (executed : s.execute command = .ok outcome) : outcome.stack.Grounded := by
  have run := s.execution command
  rw [executed] at run
  generalize returned : Except.ok outcome = result at run
  cases run with
  | underflow => cases returned; exact held
  | clear => cases returned; exact List.forall_mem_nil _
  | list => cases returned; exact held
  | replaced split enough =>
      subst s
      obtain ⟨belowGrounded, takenReachable⟩ := (grounded_pushAll ..).mp held
      obtain ⟨⟨results, output⟩, computed, rfl⟩ := map_ok_iff.mp returned.symm
      exact (grounded_pushAll ..).mpr
        ⟨belowGrounded, effect_grounded grounded takenReachable enough computed⟩

theorem Reachable.grounded (reachable : Reachable s) : s.Grounded := by
  induction reachable with
  | empty => exact List.forall_mem_nil _
  | execute _ grounded executed held => exact execute_grounded held grounded executed

theorem Grounded.reachable (held : s.Grounded) : Reachable s := by
  obtain ⟨polys⟩ := s
  induction polys with
  | nil => exact .empty
  | cons p rest ih =>
      obtain ⟨pReachable, restReachable⟩ := List.forall_mem_cons.mp held
      have grounded : (Command.push p).Grounded := by
        intro q same
        cases same
        exact pReachable
      exact .execute (ih restReachable) grounded rfl

theorem reachable_iff_grounded : Reachable s ↔ s.Grounded :=
  ⟨Reachable.grounded, Grounded.reachable⟩

end Stack

end ExactPoly
