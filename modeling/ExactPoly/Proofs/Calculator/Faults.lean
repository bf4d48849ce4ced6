import ExactPoly.Proofs.Calculator.Checked
import ExactPoly.Proofs.Poly.Fault

namespace ExactPoly

/-! When a calculator faults.

Outside division a fault is an exponent that does not fit.  A division faults
only by keeping the degree below a constant divisor.  No other condition that
the operations test for, and no check of what they build, can fail.
-/

/-- The operations on operands that have no result. -/
inductive Command.EffectFault : Command → List Poly → Fault → Prop where
  | mul {p q : Poly} {fault : Fault} (failed : p.mul q = .error fault) :
      EffectFault mul [p, q] fault
  | div {p q : Poly} {fault : Fault} (failed : p.div q = .error fault) :
      EffectFault div [p, q] fault
  | antiderivative {p : Poly} {fault : Fault} (failed : p.antiderivative 0 = .error fault) :
      EffectFault antiderivative [p] fault
  | integrate {p : Poly} {fault : Fault} {lower upper : Float}
      (lowerFinite : lower.isFinite = true) (upperFinite : upper.isFinite = true)
      (failed : p.antiderivative 0 = .error fault) :
      EffectFault (integrate lower upper) [p] fault

namespace Command

variable {command : Command} {taken : List Poly} {fault : Fault}

theorem effect_error (enough : taken.length = command.operands)
    (failed : command.effect taken = .error fault) : EffectFault command taken fault := by
  cases command with
  | clear | list => contradiction
  | push =>
      obtain rfl := List.length_eq_zero_iff.mp enough
      contradiction
  | derivative | dup | pop | eval | print =>
      obtain ⟨top, rfl⟩ := List.length_eq_one_iff.mp enough
      contradiction
  | antiderivative =>
      obtain ⟨top, rfl⟩ := List.length_eq_one_iff.mp enough
      exact .antiderivative (map_error_iff.mp failed)
  | integrate =>
      obtain ⟨top, rfl⟩ := List.length_eq_one_iff.mp enough
      obtain ⟨lowerFinite, upperFinite, integrated⟩ :=
        Poly.integrate_error_iff.mp (map_error_iff.mp failed)
      exact .integrate lowerFinite upperFinite integrated
  | add | sub | swap =>
      obtain ⟨second, top, rfl⟩ := List.length_eq_two.mp enough
      contradiction
  | mul =>
      obtain ⟨second, top, rfl⟩ := List.length_eq_two.mp enough
      exact .mul (map_error_iff.mp failed)
  | div =>
      obtain ⟨second, top, rfl⟩ := List.length_eq_two.mp enough
      exact .div (map_error_iff.mp failed)

theorem EffectFault.enough (faulted : EffectFault command taken fault) :
    taken.length = command.operands := by
  cases faulted <;> rfl

theorem EffectFault.effect_eq (faulted : EffectFault command taken fault) :
    command.effect taken = .error fault := by
  cases faulted with
  | mul failed => exact map_error_iff.mpr failed
  | div failed => exact map_error_iff.mpr failed
  | antiderivative failed => exact map_error_iff.mpr failed
  | integrate lowerFinite upperFinite failed =>
      exact map_error_iff.mpr (Poly.integrate_error_iff.mpr ⟨lowerFinite, upperFinite, failed⟩)

end Command

namespace Stack

variable {s : Stack} {command : Command} {taken : List Poly} {fault : Fault}

theorem execute_error (failed : s.execute command = .error fault) :
    ∃ below taken, s = pushAll below taken ∧ command.EffectFault taken fault := by
  have run := s.execution command
  rw [failed] at run
  generalize returned : Except.error fault = result at run
  cases run with
  | underflow => contradiction
  | clear => contradiction
  | list => contradiction
  | replaced split enough =>
      exact ⟨_, _, split, Command.effect_error enough (map_error_iff.mp returned.symm)⟩

theorem execute_of_effectFault (below : Stack) (faulted : command.EffectFault taken fault) :
    (below.pushAll taken).execute command = .error fault := by
  have notWhole : command ≠ .clear ∧ command ≠ .list := by
    cases faulted <;> exact ⟨nofun, nofun⟩
  rw [execute_pushAll faulted.enough notWhole.1 notWhole.2, faulted.effect_eq]
  rfl

/-- A product, or an antiderivative that a command forms, has an exponent that does
not fit. -/
def ExponentOverflow (s : Stack) : Command → Prop
  | .mul => ∃ below p q, s = (push below p).push q ∧ p.ProductOverflow q
  | .antiderivative => ∃ below p, s = push below p ∧ p.AtLimit
  | .integrate lower upper =>
      lower.isFinite = true ∧ upper.isFinite = true ∧ ∃ below p, s = push below p ∧ p.AtLimit
  | _ => False

theorem execute_error_iff (held : s.Grounded) (notDiv : command ≠ .div) :
    (∃ fault, s.execute command = .error fault) ↔ ExponentOverflow s command := by
  constructor
  · rintro ⟨fault, failed⟩
    obtain ⟨below, taken, rfl, faulted⟩ := execute_error failed
    have formed := wellFormed_of_grounded held
    cases faulted with
    | div => contradiction
    | mul failed =>
        exact ⟨below, _, _, rfl, (Poly.mul_error_iff (formed _ (by simp)) (formed _ (by simp))).mp
          ⟨fault, failed⟩⟩
    | antiderivative failed =>
        exact ⟨below, _, rfl, (Poly.antiderivative_error_iff (formed _ (by simp))
          Coeff.zero_ne_nan).mp ⟨fault, failed⟩⟩
    | integrate lowerFinite upperFinite failed =>
        exact ⟨lowerFinite, upperFinite, below, _, rfl, (Poly.antiderivative_error_iff
          (formed _ (by simp)) Coeff.zero_ne_nan).mp ⟨fault, failed⟩⟩
  · intro overflow
    have limit {below : Stack} {p : Poly} (split : s = below.push p) (atLimit : p.AtLimit) :
        ∃ fault, p.antiderivative 0 = .error fault := by
      subst s
      have formed := (held p (List.mem_cons_self ..)).wellFormed
      exact (Poly.antiderivative_error_iff formed Coeff.zero_ne_nan).mpr atLimit
    cases command with
    | mul =>
        obtain ⟨below, p, q, rfl, overflows⟩ := overflow
        have pFormed := (held p (.tail _ (List.mem_cons_self ..))).wellFormed
        have qFormed := (held q (List.mem_cons_self ..)).wellFormed
        obtain ⟨fault, failed⟩ := (Poly.mul_error_iff pFormed qFormed).mpr overflows
        exact ⟨fault, execute_of_effectFault below (.mul failed)⟩
    | antiderivative =>
        obtain ⟨below, p, split, atLimit⟩ := overflow
        obtain ⟨fault, failed⟩ := limit split atLimit
        exact ⟨fault, split ▸ execute_of_effectFault below (.antiderivative failed)⟩
    | integrate =>
        obtain ⟨lowerFinite, upperFinite, below, p, split, atLimit⟩ := overflow
        obtain ⟨fault, failed⟩ := limit split atLimit
        exact ⟨fault, split ▸ execute_of_effectFault below
          (.integrate lowerFinite upperFinite failed)⟩
    | _ => exact overflow.elim

/-- The commands that a fault can come from, with the operands of a division.  A
fault that is not listed comes from none. -/
def FaultOrigin (s : Stack) (command : Command) : Fault → Prop
  | .productExponent _ _ => command = .mul
  | .antiderivativeExponent _ =>
      command = .antiderivative ∨ ∃ lower upper, command = .integrate lower upper
  | .degreeKept _ => command = .div ∧ ∃ below p d c, s = (push below p).push d ∧
      d.terms = [c] ∧ c.coeff ≠ .nan ∧ c.coeff ≠ 0 ∧ c.exponent.val = 0
  | .unequalExponents _ _ | .quotientExponent _ _ | .addressOverflow => False

theorem execute_fault (held : s.Grounded) (failed : s.execute command = .error fault) :
    FaultOrigin s command fault := by
  obtain ⟨below, taken, rfl, faulted⟩ := execute_error failed
  have formed := wellFormed_of_grounded held
  cases faulted with
  | mul failed =>
      obtain ⟨t, u, rfl⟩ := Poly.mul_fault (formed _ (by simp)) (formed _ (by simp)) failed
      exact rfl
  | @div p d _ failed =>
      obtain ⟨⟨kept, rfl⟩, c, constant⟩ :=
        Poly.div_fault (formed _ (by simp)) (formed _ (by simp)) failed
      exact ⟨rfl, below, p, d, c, rfl, constant⟩
  | antiderivative failed =>
      obtain ⟨t, rfl⟩ := Poly.antiderivative_fault (formed _ (by simp)) failed
      exact .inl rfl
  | integrate _ _ failed =>
      obtain ⟨t, rfl⟩ := Poly.antiderivative_fault (formed _ (by simp)) failed
      exact .inr ⟨_, _, rfl⟩

/-- Commands other than division fault exactly when an exponent overflows, and a
division only below a constant divisor.  Execution with all checks of form is
execution without them. -/
theorem execute_faults (reachable : Reachable s) (grounded : command.Grounded) :
    (command ≠ .div →
      ((∃ fault, s.execute command = .error fault) ↔ ExponentOverflow s command)) ∧
    (∀ fault, s.execute command = .error fault → FaultOrigin s command fault) ∧
    Checked.execute s command = (s.execute command).mapError .fault :=
  ⟨execute_error_iff reachable.grounded, fun _ => execute_fault reachable.grounded,
    Checked.execute_eq reachable.grounded grounded⟩

theorem greatest_power_mul_faults :
    let s := (empty.push (Poly.monomial 3 1)).push (Poly.monomial 2 ⟨4294967295, by decide⟩)
    Reachable s ∧ Command.mul.Grounded ∧ ExponentOverflow s .mul ∧
      (∃ fault, s.execute .mul = .error fault) ∧
      Checked.execute s .mul = (s.execute .mul).mapError .fault := by
  intro s
  have held : s.Grounded := by
    refine List.forall_mem_cons.mpr ⟨.monomial _ _, List.forall_mem_singleton.mpr ?_⟩
    exact .monomial _ _
  have grounded : Command.mul.Grounded := nofun
  have overflows : ExponentOverflow s .mul := ⟨empty, _, _, rfl, by decide +kernel⟩
  obtain ⟨faults, -, checked⟩ := execute_faults held.reachable grounded
  exact ⟨held.reachable, grounded, overflows, (faults nofun).mpr overflows, checked⟩

end Stack

end ExactPoly
