import ExactPoly.Calculator.Execution

namespace ExactPoly

/-! Steps one after another, until the first that fails.

Commands of a line and lines of a batch are both run this way.  `Ended` says how
such a run ends: every step succeeds, or the first that does not decides, and
what comes after it plays no part.
-/

section

variable {α ω : Type} {step : Stack → α → Except Fault (Outcome ω)} {s next : Stack} {item : α}
  {items : List α} {result : ω}

/-- Items that all succeed, with their results and the stack after them. -/
inductive Completed (step : Stack → α → Except Fault (Outcome ω)) :
    Stack → List α → List ω → Stack → Prop where
  | nil (s : Stack) : Completed step s [] [] s
  | cons {s next after : Stack} {item : α} {items : List α} {result : ω} {results : List ω}
      (first : step s item = .ok ⟨next, .ok result⟩)
      (rest : Completed step next items results after) :
      Completed step s (item :: items) (result :: results) after

/-- The end of a run, with the results of the items that succeeded before it.  The
position of an item that fails is the number of items before it. -/
inductive Ending (ω : Type) where
  | completed (results : List ω) (after : Stack)
  | failed (position : Nat) (results : List ω) (after : Stack) (cause : CalculatorError)
  | faulted (results : List ω) (cause : Fault)

inductive Ended (step : Stack → α → Except Fault (Outcome ω)) (s : Stack) :
    List α → Ending ω → Prop where
  | completed {items : List α} {results : List ω} {after : Stack}
      (all : Completed step s items results after) :
      Ended step s items (.completed results after)
  | failed {before : List α} {results : List ω} {reached after : Stack} {item : α}
      {cause : CalculatorError} (succeeded : Completed step s before results reached)
      (failed : step reached item = .ok ⟨after, .error cause⟩) (rest : List α) :
      Ended step s (before ++ item :: rest) (.failed before.length results after cause)
  | faulted {before : List α} {results : List ω} {reached : Stack} {item : α} {cause : Fault}
      (succeeded : Completed step s before results reached)
      (failed : step reached item = .error cause) (rest : List α) :
      Ended step s (before ++ item :: rest) (.faulted results cause)

def Ending.prepend (result : ω) : Ending ω → Ending ω
  | completed results after => completed (result :: results) after
  | failed position results after cause => failed (position + 1) (result :: results) after cause
  | faulted results cause => faulted (result :: results) cause

theorem Ended.cons {ending : Ending ω} (first : step s item = .ok ⟨next, .ok result⟩)
    (rest : Ended step next items ending) :
    Ended step s (item :: items) (ending.prepend result) := by
  cases rest with
  | completed all => exact .completed (.cons first all)
  | failed succeeded failed rest => exact .failed (.cons first succeeded) failed rest
  | faulted succeeded failed rest => exact .faulted (.cons first succeeded) failed rest

theorem exists_ended (step : Stack → α → Except Fault (Outcome ω)) (s : Stack) (items : List α) :
    ∃ ending, Ended step s items ending := by
  induction items generalizing s with
  | nil => exact ⟨_, .completed (.nil s)⟩
  | cons item rest ih =>
      cases stepped : step s item with
      | error cause => exact ⟨_, .faulted (.nil s) stepped rest⟩
      | ok outcome =>
          obtain ⟨next, result⟩ := outcome
          cases result with
          | error cause => exact ⟨_, .failed (.nil s) stepped rest⟩
          | ok result =>
              obtain ⟨ending, ended⟩ := ih next
              exact ⟨_, ended.cons stepped⟩

end

end ExactPoly
