import ExactPoly.Proofs.Calculator.Sequence
import ExactPoly.Proofs.Calculator.Step
import ExactPoly.Proofs.Success

namespace ExactPoly

/-! What a line does.

A line that cannot be read does nothing.  A line that can be read runs its
commands up to the first that fails, and that one leaves the stack as it found it.
-/

/-- Outputs of earlier commands come first; an error discards them. -/
def Outcome.prepend (outputs : List Output) (outcome : Outcome (List Output)) :
    Outcome (List Output) :=
  { outcome with result := outcome.result.map (outputs ++ ·) }

theorem Outcome.prepend_nil (outcome : Outcome (List Output)) : outcome.prepend [] = outcome := by
  obtain ⟨stack, result⟩ := outcome
  cases result <;> rfl

theorem Outcome.prepend_append (outputs more : List Output) (outcome : Outcome (List Output)) :
    outcome.prepend (outputs ++ more) = (outcome.prepend more).prepend outputs := by
  obtain ⟨stack, result⟩ := outcome
  cases result with
  | error cause => rfl
  | ok later => exact congrArg (Outcome.mk stack ∘ Except.ok) (List.append_assoc outputs more later)

namespace Command

variable {line word : List Char} {words rest : List (List Char)} {command : Command}
  {commands : List Command} {cause : CalculatorError}

theorem ofWords_nil : ofWords [] = .ok [] := by
  rw [ofWords]

theorem ofWords_cons (first : ofWord word rest = .ok command)
    (others : ofWords (rest.drop (arity word)) = .ok commands) :
    ofWords (word :: rest) = .ok (command :: commands) := by
  rw [ofWords, first, others]
  rfl

theorem ofWords_unread (unread : ofWord word rest = .error cause) :
    ofWords (word :: rest) = .error cause := by
  rw [ofWords, unread]
  rfl

theorem ofWords_cons_unread (first : ofWord word rest = .ok command)
    (others : ofWords (rest.drop (arity word)) = .error cause) :
    ofWords (word :: rest) = .error cause := by
  rw [ofWords, first, others]
  rfl

theorem ofWords_cons_ok (read : ofWords (word :: rest) = .ok commands) :
    ∃ command others, ofWord word rest = .ok command ∧
      ofWords (rest.drop (arity word)) = .ok others ∧ commands = command :: others := by
  rw [ofWords] at read
  obtain ⟨command, first, remaining⟩ := bind_ok_iff.mp read
  obtain ⟨others, tail, done⟩ := bind_ok_iff.mp remaining
  exact ⟨command, others, first, tail, (Except.ok.inj done).symm⟩

theorem code_append (absent : '#' ∉ line) (more : List Char) :
    code (line ++ more) = line ++ code more :=
  List.takeWhile_append_of_pos fun _ member => decide_eq_true fun same => absent (same ▸ member)

theorem code_of_absent (absent : '#' ∉ line) : code line = line := by
  have whole : code (line ++ []) = line ++ [] := code_append absent []
  rwa [List.append_nil] at whole

theorem readLine_of_words (split : Text.words (code line) = words)
    (read : ofWords words = .ok commands) : readLine line = .ok commands := by
  rw [readLine, split, read]

end Command

namespace Stack

variable {s reached after : Stack} {line : List Char} {command : Command}
  {commands before : List Command} {output : Option Output} {results : List (Option Output)}
  {outcome : Outcome (List Output)} {cause : CalculatorError} {fault : Fault}

/-- The outcomes of a line from a stack. -/
inductive LineOutcome (s : Stack) (line : List Char) : Outcome (List Output) → Prop where
  | unread {cause : CalculatorError} (unread : Command.readLine line = .error cause) :
      LineOutcome s line ⟨s, .error cause⟩
  | completed {commands : List Command} {results : List (Option Output)} {after : Stack}
      (read : Command.readLine line = .ok commands)
      (all : Completed execute s commands results after) :
      LineOutcome s line ⟨after, .ok (results.flatMap Option.toList)⟩
  | stopped {before rest : List Command} {command : Command} {results : List (Option Output)}
      {reached : Stack} {cause : CalculatorError}
      (read : Command.readLine line = .ok (before ++ command :: rest))
      (succeeded : Completed execute s before results reached)
      (failed : reached.execute command = .ok ⟨reached, .error cause⟩) :
      LineOutcome s line ⟨reached, .error cause⟩

/-- A line faults with one of its commands when those before it have succeeded. -/
def LineFault (s : Stack) (line : List Char) (fault : Fault) : Prop :=
  ∃ before command rest results reached,
    Command.readLine line = .ok (before ++ command :: rest) ∧
    Completed execute s before results reached ∧ reached.execute command = .error fault

theorem execute_failed (failed : s.execute command = .ok ⟨after, .error cause⟩) : after = s := by
  have run := s.execution command
  rw [failed] at run
  generalize returned : Except.ok (Outcome.mk after (Except.error cause)) = result at run
  cases run with
  | underflow => cases returned; rfl
  | clear => nomatch returned
  | list => nomatch returned
  | replaced =>
      obtain ⟨done, -, same⟩ := map_ok_iff.mp returned.symm
      nomatch same

theorem executeAll_cons (first : s.execute command = .ok ⟨reached, .ok output⟩)
    (rest : List Command) :
    s.executeAll (command :: rest) =
      (reached.executeAll rest).map (Outcome.prepend output.toList) := by
  rw [executeAll, first]
  rfl

/-- Commands that succeed hand their stack and their outputs over to the rest. -/
theorem executeAll_append (succeeded : Completed execute s before results reached)
    (rest : List Command) :
    s.executeAll (before ++ rest) =
      (reached.executeAll rest).map (Outcome.prepend (results.flatMap Option.toList)) := by
  induction succeeded with
  | nil s =>
      have same : Outcome.prepend [] = id := funext Outcome.prepend_nil
      rw [List.nil_append, List.flatMap_nil, same]
      cases s.executeAll rest <;> rfl
  | @cons s next after command commands output results first _ ih =>
      rw [List.cons_append, executeAll_cons first, ih, List.flatMap_cons]
      cases after.executeAll rest with
      | error fault => rfl
      | ok outcome =>
          exact congrArg Except.ok (Outcome.prepend_append output.toList _ outcome).symm

theorem executeAll_completed (all : Completed execute s commands results after) :
    s.executeAll commands = .ok ⟨after, .ok (results.flatMap Option.toList)⟩ := by
  have ran := executeAll_append all []
  rw [List.append_nil] at ran
  rw [ran]
  exact congrArg (Except.ok ∘ Outcome.mk after ∘ Except.ok) (List.append_nil _)

theorem executeAll_failed (succeeded : Completed execute s before results reached)
    (failed : reached.execute command = .ok ⟨after, .error cause⟩) (rest : List Command) :
    s.executeAll (before ++ command :: rest) = .ok ⟨after, .error cause⟩ := by
  rw [executeAll_append succeeded, executeAll, failed]
  rfl

theorem executeAll_faulted (succeeded : Completed execute s before results reached)
    (failed : reached.execute command = .error fault) (rest : List Command) :
    s.executeAll (before ++ command :: rest) = .error fault := by
  rw [executeAll_append succeeded, executeAll, failed]
  rfl

theorem executeLine_of_read (read : Command.readLine line = .ok commands) :
    s.executeLine line = s.executeAll commands := by
  rw [executeLine, read]

theorem executeLine_of_words {words : List (List Char)}
    (split : Text.words (Command.code line) = words)
    (read : Command.ofWords words = .ok commands) : s.executeLine line = s.executeAll commands :=
  executeLine_of_read (Command.readLine_of_words split read)

theorem executeLine_of_unread (unread : Command.readLine line = .error cause) :
    s.executeLine line = .ok ⟨s, .error cause⟩ := by
  rw [executeLine, unread]

theorem LineOutcome.executed (ends : LineOutcome s line outcome) :
    s.executeLine line = .ok outcome := by
  cases ends with
  | unread unread => exact executeLine_of_unread unread
  | completed read all => rw [executeLine_of_read read, executeAll_completed all]
  | stopped read succeeded failed =>
      rw [executeLine_of_read read, executeAll_failed succeeded failed]

theorem LineFault.executed (faulted : LineFault s line fault) :
    s.executeLine line = .error fault := by
  obtain ⟨before, command, rest, results, reached, read, succeeded, failed⟩ := faulted
  rw [executeLine_of_read read, executeAll_faulted succeeded failed]

/-- Every line has an outcome or a fault. -/
theorem lineOutcome_or_lineFault (s : Stack) (line : List Char) :
    (∃ outcome, LineOutcome s line outcome) ∨ ∃ fault, LineFault s line fault := by
  cases read : Command.readLine line with
  | error cause => exact .inl ⟨_, .unread read⟩
  | ok commands =>
      obtain ⟨ending, ended⟩ := exists_ended execute s commands
      cases ended with
      | completed all => exact .inl ⟨_, .completed read all⟩
      | failed succeeded failed rest =>
          obtain rfl := execute_failed failed
          exact .inl ⟨_, .stopped read succeeded failed⟩
      | faulted succeeded failed rest => exact .inr ⟨_, _, _, rest, _, _, read, succeeded, failed⟩

theorem executeLine_ok_iff : s.executeLine line = .ok outcome ↔ LineOutcome s line outcome := by
  refine ⟨fun executed => ?_, LineOutcome.executed⟩
  rcases lineOutcome_or_lineFault s line with ⟨found, ends⟩ | ⟨fault, faulted⟩
  · cases ends.executed.symm.trans executed
    exact ends
  · cases faulted.executed.symm.trans executed

theorem executeLine_error_iff : s.executeLine line = .error fault ↔ LineFault s line fault := by
  refine ⟨fun executed => ?_, LineFault.executed⟩
  rcases lineOutcome_or_lineFault s line with ⟨found, ends⟩ | ⟨other, faulted⟩
  · cases ends.executed.symm.trans executed
  · cases faulted.executed.symm.trans executed
    exact faulted

/-- A line has no effect if it is not read, the effect of all its commands if they
succeed, and otherwise the effect of those before the first that fails. -/
theorem executeLine_atomic (s : Stack) (line : List Char) :
    (∀ outcome, s.executeLine line = .ok outcome ↔ LineOutcome s line outcome) ∧
      ∀ fault, s.executeLine line = .error fault ↔ LineFault s line fault :=
  ⟨fun _ => executeLine_ok_iff, fun _ => executeLine_error_iff⟩

/-- A malformed word behind sound commands, a line with two outputs, and a line that
stops at its second sum. -/
theorem malformed_sound_and_stopped_lines :
    let x : Poly := .monomial 1 1
    let s : Stack := ⟨[x]⟩
    let double : Poly := x.add x
    let malformed : ReadError := .coefficient (.invalidInteger "2y" .invalidDigit)
    s.executeLine "dup p + 2y".toList = .ok ⟨s, .error (.polynomial "2y" malformed)⟩ ∧
      s.executeLine "dup p + p".toList = .ok ⟨⟨[double]⟩, .ok [.poly x, .poly double]⟩ ∧
      s.executeLine "dup p + + clear".toList =
        .ok ⟨⟨[double]⟩, .error (.stack (.underflow 2 1))⟩ := by
  intro x s double malformed
  have unread : Command.readLine "dup p + 2y".toList = .error (.polynomial "2y" malformed) := by
    have words : Text.words (Command.code "dup p + 2y".toList) =
        ["dup".toList, ['p'], ['+'], ['2', 'y']] := by decide
    rw [Command.readLine, words]
    exact Command.ofWords_cons_unread rfl (Command.ofWords_cons_unread rfl
      (Command.ofWords_cons_unread rfl (Command.ofWords_unread rfl)))
  have sound : Command.readLine "dup p + p".toList = .ok [.dup, .print, .add, .print] := by
    have words : Text.words (Command.code "dup p + p".toList) =
        ["dup".toList, ['p'], ['+'], ['p']] := by decide
    exact Command.readLine_of_words words (Command.ofWords_cons rfl (Command.ofWords_cons rfl
      (Command.ofWords_cons rfl (Command.ofWords_cons rfl Command.ofWords_nil))))
  have stopped : Command.readLine "dup p + + clear".toList =
      .ok ([.dup, .print, .add] ++ .add :: [.clear]) := by
    have words : Text.words (Command.code "dup p + + clear".toList) =
        ["dup".toList, ['p'], ['+'], ['+'], "clear".toList] := by decide
    exact Command.readLine_of_words words (Command.ofWords_cons rfl (Command.ofWords_cons rfl
      (Command.ofWords_cons rfl (Command.ofWords_cons rfl (Command.ofWords_cons rfl
        Command.ofWords_nil)))))
  have summed : Completed execute s [.dup, .print, .add] [none, some (.poly x), none] ⟨[double]⟩ :=
    .cons rfl (.cons rfl (.cons rfl (.nil _)))
  have shown : Completed execute s [.dup, .print, .add, .print]
      [none, some (.poly x), none, some (.poly double)] ⟨[double]⟩ :=
    .cons rfl (.cons rfl (.cons rfl (.cons rfl (.nil _))))
  exact ⟨((executeLine_atomic s _).1 _).mpr (.unread unread),
    ((executeLine_atomic s _).1 _).mpr (.completed sound shown),
    ((executeLine_atomic s _).1 _).mpr (.stopped stopped summed rfl)⟩

end Stack

end ExactPoly
