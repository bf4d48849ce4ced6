import ExactPoly.Proofs.Calculator.Line
import ExactPoly.Proofs.Text.Words

namespace ExactPoly

/-! Lines one after another in one line.

A command takes its arguments from the words after it, and a line that can be read
has them all.  So words appended to such a line begin with a command of their own.
-/

/-- A second run from the stack that this one left behind, unless it failed. -/
def Outcome.andThen (outcome : Outcome (List Output))
    (next : Stack → Except Fault (Outcome (List Output))) :
    Except Fault (Outcome (List Output)) :=
  match outcome.result with
  | .error _ => .ok outcome
  | .ok outputs => (next outcome.stack).map (Outcome.prepend outputs)

namespace Command

variable {word line first gap second : List Char} {words rest : List (List Char)} {name : String}
  {expected index : Nat} {x : Float} {command : Command} {commands : List Command}

theorem readNumber_append (read : readNumber name expected rest[index]? = .ok x)
    (more : List (List Char)) :
    index < rest.length ∧ readNumber name expected (rest ++ more)[index]? = .ok x := by
  have present : index < rest.length := by
    by_contra absent
    rw [List.getElem?_eq_none (Nat.le_of_not_lt absent)] at read
    contradiction
  refine ⟨present, ?_⟩
  rwa [List.getElem?_append_left present]

theorem ofWord_plain (notPush : word ≠ "push".toList) (notEval : word ≠ "eval".toList)
    (notDefint : word ≠ "defint".toList) (rest : List (List Char)) :
    arity word = 0 ∧ ofWord word rest = ofWord word [] := by
  constructor
  · rw [arity, if_neg notPush, if_neg notEval, if_neg notDefint]
  · unfold ofWord
    rw [if_neg notPush, if_neg notEval, if_neg notDefint, if_neg notPush, if_neg notEval,
      if_neg notDefint]

/-- A word that is read has its arguments, and words after these do not matter. -/
theorem ofWord_append (read : ofWord word rest = .ok command) (more : List (List Char)) :
    arity word ≤ rest.length ∧ ofWord word (rest ++ more) = .ok command := by
  by_cases isPush : word = "push".toList
  · subst word
    cases rest with
    | nil =>
        have missing : ofWord "push".toList [] = .error (.missingArgument "push" 1) := rfl
        rw [missing] at read
        contradiction
    | cons text rest => exact ⟨Nat.succ_le_succ (Nat.zero_le _), read⟩
  · by_cases isEval : word = "eval".toList
    · subst word
      have evaluation : (readNumber "eval" 1 rest[0]?).map eval = .ok command := read
      obtain ⟨x, number, rfl⟩ := map_ok_iff.mp evaluation
      obtain ⟨enough, kept⟩ := readNumber_append number more
      exact ⟨enough, congrArg (Except.map eval) kept⟩
    · by_cases isDefint : word = "defint".toList
      · subst word
        obtain ⟨lower, lowerRead, remaining⟩ := bind_ok_iff.mp read
        obtain ⟨upper, upperRead, done⟩ := bind_ok_iff.mp remaining
        obtain ⟨-, lowerKept⟩ := readNumber_append lowerRead more
        obtain ⟨enough, upperKept⟩ := readNumber_append upperRead more
        exact ⟨enough, bind_ok_iff.mpr ⟨lower, lowerKept, bind_ok_iff.mpr ⟨upper, upperKept, done⟩⟩⟩
      · obtain ⟨noArguments, alone⟩ := ofWord_plain isPush isEval isDefint rest
        obtain ⟨-, appended⟩ := ofWord_plain isPush isEval isDefint (rest ++ more)
        rw [noArguments, appended, ← alone]
        exact ⟨Nat.zero_le _, read⟩

theorem ofWords_append (read : ofWords words = .ok commands) (more : List (List Char)) :
    ofWords (words ++ more) = (ofWords more).map (commands ++ ·) := by
  induction words using ofWords.induct generalizing commands with
  | case1 =>
      rw [ofWords_nil] at read
      cases read
      rw [List.nil_append]
      cases ofWords more <;> rfl
  | case2 word rest ih =>
      obtain ⟨command, others, head, tail, rfl⟩ := ofWords_cons_ok read
      obtain ⟨enough, kept⟩ := ofWord_append head more
      rw [List.cons_append, ofWords, kept, List.drop_append_of_le_length enough, ih tail]
      cases ofWords more <;> rfl

theorem readLine_append (noComment : '#' ∉ first) (apart : Text.Gap gap)
    (read : readLine first = .ok commands) (second : List Char) :
    readLine (first ++ gap ++ second) = (readLine second).map (commands ++ ·) := by
  have unmarked : '#' ∉ first ++ gap := by
    intro member
    rcases List.mem_append.mp member with inFirst | inGap
    · exact noComment inFirst
    · have blank := apart.2 '#' inGap
      contradiction
  rw [readLine, code_of_absent noComment] at read
  rw [readLine, code_append unmarked, Text.words_append_gap apart, ofWords_append read]
  rfl

theorem readLine_comment (noComment : '#' ∉ line) (comment : List Char) :
    readLine (line ++ '#' :: comment) = readLine line := by
  have cut : code ('#' :: comment) = [] := rfl
  rw [readLine, code_append noComment, cut, List.append_nil, readLine, code_of_absent noComment]

theorem readFirst_of_readLine (noComment : '#' ∉ line)
    (read : readLine line = .ok (command :: commands)) : readFirst line = .ok command := by
  rw [readLine, code_of_absent noComment] at read
  rw [readFirst]
  cases split : Text.words line with
  | nil =>
      rw [split, ofWords_nil] at read
      cases read
  | cons word rest =>
      rw [split] at read
      obtain ⟨found, others, head, -, same⟩ := ofWords_cons_ok read
      cases same
      exact head

end Command

namespace Stack

theorem executeAll_andThen (s : Stack) (first second : List Command) :
    s.executeAll (first ++ second) =
      s.executeAll first >>= fun outcome => outcome.andThen (·.executeAll second) := by
  obtain ⟨ending, ended⟩ := exists_ended execute s first
  cases ended with
  | completed all =>
      rw [executeAll_append all, executeAll_completed all]
      rfl
  | failed succeeded failed rest =>
      rw [List.append_assoc, List.cons_append, executeAll_failed succeeded failed,
        executeAll_failed succeeded failed]
      rfl
  | faulted succeeded failed rest =>
      rw [List.append_assoc, List.cons_append, executeAll_faulted succeeded failed,
        executeAll_faulted succeeded failed]
      rfl

/-- A line without comment that can be read is read first in every line that continues it after
a gap; and if the rest can be read too, the joined line does what the two lines do in turn. -/
theorem lines_compose :
    (∀ (first gap second : List Char) (commands : List Command),
      '#' ∉ first → Text.Gap gap → Command.readLine first = .ok commands →
        Command.readLine (first ++ gap ++ second) =
            (Command.readLine second).map (commands ++ ·) ∧
          ∀ (more : List Command) (s : Stack), Command.readLine second = .ok more →
            s.executeLine (first ++ gap ++ second) =
              s.executeLine first >>= fun outcome => outcome.andThen (·.executeLine second)) ∧
      (∀ line comment : List Char, '#' ∉ line →
        Command.readLine (line ++ '#' :: comment) = Command.readLine line) ∧
      ∀ (line : List Char) (command : Command) (commands : List Command), '#' ∉ line →
        Command.readLine line = .ok (command :: commands) →
          Command.readFirst line = .ok command := by
  refine ⟨fun first gap second commands noComment apart read => ?_,
    fun _ comment noComment => Command.readLine_comment noComment comment,
    fun _ _ _ noComment read => Command.readFirst_of_readLine noComment read⟩
  have joined := Command.readLine_append noComment apart read second
  refine ⟨joined, fun more s readSecond => ?_⟩
  rw [readSecond] at joined
  rw [executeLine_of_read joined, executeAll_andThen, executeLine_of_read read]
  simp only [executeLine_of_read readSecond]

/-- The second line is read without its comment, and its product follows the text of `x`. -/
theorem printed_square_composes :
    let x : Poly := .monomial 1 1
    let first := "push x p".toList
    let gap := ['\t', '\u3000']
    let second := "x * p # squared".toList
    '#' ∉ first ∧ Text.Gap gap ∧ Command.readLine first = .ok [.push x, .print] ∧
      Command.readLine (first ++ gap ++ second) =
        .ok [.push x, .print, .push x, .mul, .print] ∧
      empty.executeLine (first ++ gap ++ second) =
        .ok ⟨⟨[.monomial 1 ⟨2, by decide⟩]⟩, .ok [.poly x, .poly (.monomial 1 ⟨2, by decide⟩)]⟩ ∧
      Command.readFirst first = .ok (.push x) := by
  intro x first gap second
  have noComment : '#' ∉ first := by decide
  have apart : Text.Gap gap :=
    ⟨by decide, List.forall_mem_cons.mpr ⟨rfl, List.forall_mem_singleton.mpr rfl⟩⟩
  have firstWords : Text.words (Command.code first) = ["push".toList, ['x'], ['p']] := by decide
  have secondWords : Text.words (Command.code second) = [['x'], ['*'], ['p']] := by decide
  have readFirst : Command.readLine first = .ok [.push x, .print] :=
    Command.readLine_of_words firstWords
      (Command.ofWords_cons rfl (Command.ofWords_cons rfl Command.ofWords_nil))
  have readSecond : Command.readLine second = .ok [.push x, .mul, .print] :=
    Command.readLine_of_words secondWords (Command.ofWords_cons rfl
      (Command.ofWords_cons rfl (Command.ofWords_cons rfl Command.ofWords_nil)))
  obtain ⟨compose, -, leads⟩ := lines_compose
  obtain ⟨joined, executed⟩ := compose first gap second _ noComment apart readFirst
  refine ⟨noComment, apart, readFirst, ?_, ?_, leads first _ _ noComment readFirst⟩
  · rw [joined, readSecond]
    rfl
  · rw [executed _ empty readSecond, executeLine_of_read readFirst]
    simp only [executeLine_of_read readSecond]
    rfl

end Stack

end ExactPoly
