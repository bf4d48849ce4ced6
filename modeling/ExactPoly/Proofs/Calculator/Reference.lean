import ExactPoly.Proofs.Calculator.Step
import ExactPoly.Proofs.Success

namespace ExactPoly

/-! The calculator as a machine on lists.

A state of the machine is the list of the polynomials from the bottom to the top.
A command splits its operands off the end and appends its results.  A run of the
calculator is a run of the machine, step by step, also after commands that fail.
-/

/-- Commands that only look at the stack. -/
def Command.ReadOnly : Command → Prop
  | eval _ | integrate _ _ | print | list => True
  | _ => False

namespace Reference

def step (state : List Poly) (command : Command) :
    Except Fault (List Poly × Except CalculatorError (Option Output)) :=
  if state.length < command.operands then
    .ok (state, .error (.stack (.underflow command.operands state.length)))
  else
    match command with
    | .clear => .ok ([], .ok none)
    | .list => .ok (state, .ok (some (.stack ⟨state.reverse⟩)))
    | command =>
        let below := state.take (state.length - command.operands)
        let taken := state.drop (state.length - command.operands)
        (command.effect taken).map fun (results, output) => (below ++ results, .ok output)

/-- The states and results of a sequence of commands.  A command that fails is
passed over, and a fault is the end. -/
def trace {σ ρ : Type} (step : σ → Command → Except Fault (σ × ρ)) :
    σ → List Command → List (Except Fault (σ × ρ))
  | _, [] => []
  | state, command :: commands =>
      match step state command with
      | .error fault => [.error fault]
      | .ok (next, result) => .ok (next, result) :: trace step next commands

variable {state below taken : List Poly} {command : Command}

theorem step_append (enough : taken.length = command.operands) (notClear : command ≠ .clear)
    (notList : command ≠ .list) :
    step (below ++ taken) command =
      (command.effect taken).map fun (results, output) => (below ++ results, .ok output) := by
  have notShort : ¬ (below ++ taken).length < command.operands := by
    rw [List.length_append]
    omega
  have start : (below ++ taken).length - command.operands = below.length := by
    rw [List.length_append, enough, Nat.add_sub_cancel]
  unfold step
  rw [if_neg notShort]
  split
  · contradiction
  · contradiction
  · simp only [start, List.take_left, List.drop_left]

theorem trace_map {σ τ ρ : Type} {concrete : σ → Command → Except Fault (σ × ρ)}
    {abstract : τ → Command → Except Fault (τ × ρ)} {view : σ → τ}
    (commutes : ∀ state command,
      (concrete state command).map (Prod.map view id) = abstract (view state) command)
    (state : σ) (commands : List Command) :
    (trace concrete state commands).map (Except.map (Prod.map view id)) =
      trace abstract (view state) commands := by
  induction commands generalizing state with
  | nil => rfl
  | cons command commands ih =>
      rw [trace, trace, ← commutes]
      cases concrete state command with
      | error fault => rfl
      | ok next => exact congrArg (_ :: ·) (ih next.1)

end Reference

namespace Stack

open Reference

variable {s : Stack} {command : Command} {outcome : Outcome (Option Output)}

/-- The stack after a command, and the result of the command. -/
def observe (s : Stack) (command : Command) :
    Except Fault (Stack × Except CalculatorError (Option Output)) :=
  (s.execute command).map fun outcome => (outcome.stack, outcome.result)

theorem observe_step (s : Stack) (command : Command) :
    (s.observe command).map (Prod.map bottomFirst id) = step s.bottomFirst command := by
  have run := s.execution command
  rw [observe]
  generalize s.execute command = result at run
  cases run with
  | underflow short =>
      have shortList : s.bottomFirst.length < command.operands := s.length_bottomFirst ▸ short
      unfold step
      rw [if_pos shortList, length_bottomFirst]
      rfl
  | clear => rfl
  | list =>
      have restored : (⟨s.bottomFirst.reverse⟩ : Stack) = s :=
        congrArg Stack.mk (List.reverse_reverse _)
      have notShort : ¬ s.bottomFirst.length < Command.list.operands := Nat.not_lt_zero _
      unfold step
      rw [if_neg notShort, restored]
      rfl
  | @replaced command below taken split enough notClear notList =>
      rw [split, bottomFirst_pushAll, step_append enough notClear notList]
      cases command.effect taken with
      | error fault => rfl
      | ok done =>
          exact congrArg (fun polys => Except.ok (polys, Except.ok done.2))
            (bottomFirst_pushAll below done.1)

theorem effect_readOnly {taken results : List Poly} {output : Option Output}
    (readOnly : command.ReadOnly) (enough : taken.length = command.operands)
    (computed : command.effect taken = .ok (results, output)) : results = taken := by
  cases command with
  | list =>
      cases computed
      rfl
  | eval | print =>
      obtain ⟨top, rfl⟩ := List.length_eq_one_iff.mp enough
      cases computed
      rfl
  | integrate =>
      obtain ⟨top, rfl⟩ := List.length_eq_one_iff.mp enough
      obtain ⟨x, -, same⟩ := map_ok_iff.mp computed
      cases same
      rfl
  | _ => exact readOnly.elim

/-- What a command that returns does: it lacks operands and changes nothing, or it
replaces its operands and leaves what is below them. -/
structure Refines (s : Stack) (command : Command) (outcome : Outcome (Option Output)) : Prop where
  underflow : outcome.result = .error (.stack (.underflow command.operands s.size)) ↔
    s.size < command.operands
  unchanged : s.size < command.operands → outcome.stack = s
  replaced : command.operands ≤ s.size → command ≠ .clear → command ≠ .list →
    ∃ results output,
      command.effect (s.bottomFirst.drop (s.size - command.operands)) = .ok (results, output) ∧
      outcome.stack.bottomFirst = s.bottomFirst.take (s.size - command.operands) ++ results ∧
      outcome.result = .ok output
  readOnly : command.ReadOnly → outcome.stack = s
  cleared : command = .clear → outcome = ⟨empty, .ok none⟩
  listed : command = .list → outcome = ⟨s, .ok (some (.stack s))⟩

theorem refines (executed : s.execute command = .ok outcome) : Refines s command outcome := by
  have run := s.execution command
  rw [executed] at run
  generalize returned : Except.ok outcome = result at run
  cases run with
  | underflow short =>
      cases returned
      refine ⟨iff_of_true rfl short, fun _ => rfl, fun enough => ?_, fun _ => rfl, ?_, ?_⟩
      · exact absurd short (Nat.not_lt_of_le enough)
      · rintro rfl
        exact absurd short (Nat.not_lt_zero _)
      · rintro rfl
        exact absurd short (Nat.not_lt_zero _)
  | clear =>
      cases returned
      exact ⟨iff_of_false nofun (Nat.not_lt_zero _), fun short => absurd short (Nat.not_lt_zero _),
        fun _ notClear => absurd rfl notClear, False.elim, fun _ => rfl, nofun⟩
  | list =>
      cases returned
      exact ⟨iff_of_false nofun (Nat.not_lt_zero _), fun _ => rfl,
        fun _ _ notList => absurd rfl notList, fun _ => rfl, nofun, fun _ => rfl⟩
  | @replaced command below taken split enough notClear notList =>
      obtain ⟨⟨results, output⟩, computed, rfl⟩ := map_ok_iff.mp returned.symm
      have order : s.bottomFirst = below.bottomFirst ++ taken :=
        split ▸ bottomFirst_pushAll below taken
      have start : s.size - command.operands = below.bottomFirst.length := by
        rw [← s.length_bottomFirst, order, List.length_append, enough, Nat.add_sub_cancel]
      have available : command.operands ≤ s.size := by
        rw [← s.length_bottomFirst, order, List.length_append, enough]
        exact Nat.le_add_left _ _
      refine ⟨iff_of_false nofun (Nat.not_lt_of_le available),
        fun short => absurd short (Nat.not_lt_of_le available), fun _ _ _ => ?_, fun readOnly => ?_,
        fun clear => absurd clear notClear, fun list => absurd list notList⟩
      · rw [start, order, List.take_left, List.drop_left]
        exact ⟨results, output, computed, bottomFirst_pushAll below results, rfl⟩
      · rw [split, effect_readOnly readOnly enough computed]

/-- Every command does to the stack what it does to a list, and so does every
sequence of commands. -/
theorem execute_refines_reference :
    (∀ (s : Stack) (command : Command) (outcome : Outcome (Option Output)),
      s.execute command = .ok outcome → Refines s command outcome) ∧
    ∀ (s : Stack) (commands : List Command),
      (trace observe s commands).map (Except.map (Prod.map bottomFirst id)) =
        trace step s.bottomFirst commands :=
  ⟨fun _ _ _ executed => refines executed, fun s commands => trace_map observe_step s commands⟩

/-- A difference, a product and a sum that lacks an operand, seen from the bottom. -/
theorem products_of_three_refine :
    let x : Poly := .monomial 1 1
    let one : Poly := .monomial 1 0
    let square : Poly := .monomial 1 ⟨2, by decide⟩
    let s : Stack := ⟨[one, x, square]⟩
    s.execute .sub = .ok ⟨⟨[x.sub one, square]⟩, .ok none⟩ ∧
      Refines s .sub ⟨⟨[x.sub one, square]⟩, .ok none⟩ ∧
      ∃ cubic, square.mul (x.sub one) = .ok cubic ∧
        (trace observe s [.sub, .mul, .add, .print]).map (Except.map (Prod.map bottomFirst id)) =
          [.ok ([square, x.sub one], .ok none), .ok ([cubic], .ok none),
            .ok ([cubic], .error (.stack (.underflow 2 1))),
            .ok ([cubic], .ok (some (.poly cubic)))] := by
  intro x one square s
  obtain ⟨refine, traces⟩ := execute_refines_reference
  exact ⟨rfl, refine s .sub _ rfl, _, rfl, (traces s _).trans rfl⟩

end Stack

end ExactPoly
