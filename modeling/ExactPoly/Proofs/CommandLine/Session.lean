import ExactPoly.CommandLine.Session
import ExactPoly.Proofs.Calculator.Line

namespace ExactPoly.CommandLine.Session

/-! Sessions as folds over their lines.

Of the typed lines, those before the first that leaves count, without blank ones
and requests for help.  The calculator is fed these, and a session shows for each
what it answers.  A line that fails is an outcome like any other: the next line
goes on with the stack it left.
-/

def leaving : List (List Char) := ["quit".toList, "exit".toList]

def skipped : List (List Char) := [[], "help".toList]

/-- The lines that are read before one that leaves, without blanks around them. -/
def staying (typed : List (List Char)) : List (List Char) :=
  (typed.map Text.trim).takeWhile (· ∉ leaving)

/-- The lines that reach the calculator. -/
def commandLines (typed : List (List Char)) : List (List Char) :=
  (staying typed).filter (· ∉ skipped)

def feed (s : Stack) (line : List Char) : Except Fault Stack :=
  (s.executeLine line).map Outcome.stack

/-- Lines that do not fault, with their outcomes and the stack after them. -/
inductive Fed : Stack → List (List Char) → List (Outcome (List Output)) → Stack → Prop where
  | nil (s : Stack) : Fed s [] [] s
  | cons {s after : Stack} {line : List Char} {lines : List (List Char)}
      {outcome : Outcome (List Output)} {outcomes : List (Outcome (List Output))}
      (first : s.LineOutcome line outcome) (rest : Fed outcome.stack lines outcomes after) :
      Fed s (line :: lines) (outcome :: outcomes) after

/-- The text that the outcome of a line has to show. -/
inductive Shows : Outcome (List Output) → String → Prop where
  | outputs {after : Stack} {outputs : List Output} (nonempty : outputs ≠ []) :
      Shows ⟨after, .ok outputs⟩
        (String.join (outputs.map fun output => String.ofList output.print ++ "\n"))
  | top (top : Poly) (below : List Poly) :
      Shows ⟨⟨top :: below⟩, .ok []⟩ (String.ofList top.print ++ "\n")
  | nothing : Shows ⟨.empty, .ok []⟩ ""
  | failed {after : Stack} {cause : CalculatorError} : Shows ⟨after, .error cause⟩ ""

/-- What stands between the first prompt and the end of a session: for each line the
help text or the next answer, unless it is blank, and another prompt. -/
def dialogue : List (List Char) → List String → String
  | [], _ => ""
  | line :: lines, answers =>
      if line = [] then "poly> " ++ dialogue lines answers
      else if line = "help".toList then Piece.help.text ++ "poly> " ++ dialogue lines answers
      else answers.headD "" ++ "poly> " ++ dialogue lines answers.tail

def greeting (verbosity : Verbosity) : String :=
  if verbosity = .quiet then "" else Piece.banner.text

/-- The note at the end of the input, which is not seen after a line that leaves. -/
def farewell (verbosity : Verbosity) (typed : List (List Char)) : String :=
  if verbosity = .quiet ∨ ∃ line ∈ typed, Text.trim line ∈ leaving then "" else "CTRL-D\n"

/-- A session that went on from a transcript to this one, with lines that the calculator
was fed up to this stack. -/
structure Folds (verbosity : Verbosity) (before : Transcript) (typed : List (List Char))
    (final : Stack) (t : Transcript) : Prop where
  stack : t.stack = final
  exit : t.exit = some .success
  answered : ∃ outcomes answers, Fed before.stack (commandLines typed) outcomes final ∧
    List.Forall₂ Shows outcomes answers ∧
    t.stdout = before.stdout ++ dialogue (staying typed) answers ++ farewell verbosity typed

theorem Fed.unique {s after after' : Stack} {lines : List (List Char)}
    {outcomes outcomes' : List (Outcome (List Output))} (fed : Fed s lines outcomes after)
    (fed' : Fed s lines outcomes' after') : outcomes = outcomes' := by
  induction fed generalizing outcomes' with
  | nil s =>
      cases fed'
      rfl
  | cons first rest ih =>
      cases fed' with
      | cons first' rest' =>
          have same := (Stack.executeLine_ok_iff.mpr first).symm.trans
            (Stack.executeLine_ok_iff.mpr first')
          cases same
          rw [ih rest']

theorem shows_unique : Relator.RightUnique Shows := by
  intro outcome text text' shows shows'
  cases shows with
  | outputs nonempty =>
      cases shows' with
      | outputs => rfl
      | _ => contradiction
  | top =>
      cases shows' with
      | outputs nonempty => contradiction
      | top => rfl
  | nothing =>
      cases shows' with
      | outputs nonempty => contradiction
      | nothing => rfl
  | failed =>
      cases shows'
      rfl

section

variable {v : Verbosity} {typed line : List Char} {rest lines : List (List Char)}
  {s final : Stack} {outcome : Outcome (List Output)} {t before : Transcript}

theorem foldlM_feed_cons_iff :
    (line :: lines).foldlM feed s = .ok final ↔
      ∃ outcome, s.executeLine line = .ok outcome ∧
        lines.foldlM feed outcome.stack = .ok final := by
  rw [List.foldlM_cons, bind_ok_iff]
  constructor
  · intro fed
    obtain ⟨next, first, others⟩ := fed
    obtain ⟨outcome, executed, rfl⟩ := map_ok_iff.mp first
    exact ⟨outcome, executed, others⟩
  · intro fed
    obtain ⟨outcome, executed, others⟩ := fed
    exact ⟨outcome.stack, map_ok_iff.mpr ⟨outcome, executed, rfl⟩, others⟩

theorem mem_leaving_iff : line ∈ leaving ↔ line = "quit".toList ∨ line = "exit".toList := by
  simp [leaving]

theorem mem_skipped_iff : line ∈ skipped ↔ line = [] ∨ line = "help".toList := by
  simp [skipped]

theorem staying_leaving (leaves : Text.trim typed ∈ leaving) : staying (typed :: rest) = [] := by
  simp [staying, leaves]

theorem staying_cons (stays : Text.trim typed ∉ leaving) :
    staying (typed :: rest) = Text.trim typed :: staying rest := by
  simp [staying, stays]

theorem commandLines_leaving (leaves : Text.trim typed ∈ leaving) :
    commandLines (typed :: rest) = [] := by
  rw [commandLines, staying_leaving leaves, List.filter_nil]

theorem commandLines_skipped (stays : Text.trim typed ∉ leaving)
    (skips : Text.trim typed ∈ skipped) : commandLines (typed :: rest) = commandLines rest := by
  simp [commandLines, staying_cons stays, skips]

theorem commandLines_command (stays : Text.trim typed ∉ leaving)
    (counts : Text.trim typed ∉ skipped) :
    commandLines (typed :: rest) = Text.trim typed :: commandLines rest := by
  simp [commandLines, staying_cons stays, counts]

theorem farewell_leaving (leaves : Text.trim typed ∈ leaving) : farewell v (typed :: rest) = "" :=
  if_pos (.inr ⟨typed, List.mem_cons_self, leaves⟩)

theorem farewell_cons (stays : Text.trim typed ∉ leaving) :
    farewell v (typed :: rest) = farewell v rest := by
  simp only [farewell, List.mem_cons, exists_eq_or_imp, stays, false_or]

@[simp] theorem text_prompt : Piece.prompt.text = "poly> " :=
  rfl

theorem aside_eq (v : Verbosity) (piece : Piece) :
    String.join ((aside v piece).map Piece.text) = if v = .quiet then "" else piece.text := by
  by_cases quiet : v = .quiet
  · rw [aside, if_neg (mt Verbosity.normal_le_iff.mp (not_not_intro quiet)), if_pos quiet]
    rfl
  · rw [aside, if_pos (Verbosity.normal_le_iff.mpr quiet), if_neg quiet]
    exact String.empty_append

namespace Transcript

theorem stdout_write (t : Transcript) (pieces : List Piece) :
    (t.write pieces).stdout = t.stdout ++ String.join (pieces.map Piece.text) := by
  rw [stdout, write, List.map_append, String.join_append]
  rfl

theorem advance_ok (goesOn : t.exit = none) (typed : List Char) :
    t.advance v (.ok typed) = t.read (Text.trim typed) := by
  rw [advance, goesOn]
  rfl

theorem advance_error (goesOn : t.exit = none) (cause : Interruption) :
    t.advance v (.error cause) = t.interrupt v cause := by
  rw [advance, goesOn]
  rfl

theorem read_leaving (leaves : line ∈ leaving) : t.read line = t.leave .success := by
  have nonempty : line ≠ [] := fun blank => absurd (blank ▸ leaves) (by decide)
  rw [read, if_neg nonempty, if_pos (mem_leaving_iff.mp leaves)]

theorem read_command (stays : line ∉ leaving) (counts : line ∉ skipped)
    (executed : t.stack.executeLine line = .ok outcome) : t.read line = t.answer outcome := by
  obtain ⟨nonblank, notHelp⟩ := not_or.mp (mt mem_skipped_iff.mpr counts)
  rw [read, if_neg nonblank, if_neg (mt mem_leaving_iff.mpr stays), if_neg notHelp, executed]

theorem advance_over (ended : t.exit.isSome) (event : Event) : t.advance v event = t :=
  if_pos ended

theorem foldl_advance_over (ended : t.exit.isSome) (events : List Event) :
    events.foldl (advance v) t = t := by
  induction events with
  | nil => rfl
  | cons event events ih => rw [List.foldl_cons, advance_over ended, ih]

theorem answer_stack (t : Transcript) (outcome : Outcome (List Output)) :
    (t.answer outcome).stack = outcome.stack := by
  obtain ⟨after, result⟩ := outcome
  cases result <;> rfl

theorem answer_exit (t : Transcript) (outcome : Outcome (List Output)) :
    (t.answer outcome).exit = t.exit := by
  obtain ⟨after, result⟩ := outcome
  cases result <;> rfl

/-- A line shows its outputs, or else the top. -/
theorem exists_shows (t : Transcript) (outcome : Outcome (List Output)) :
    ∃ text, Shows outcome text ∧ (t.answer outcome).stdout = t.stdout ++ (text ++ "poly> ") := by
  obtain ⟨⟨polys⟩, result⟩ := outcome
  cases result with
  | error cause => exact ⟨"", .failed, stdout_write _ _⟩
  | ok outputs =>
      cases outputs with
      | cons output others => exact ⟨_, .outputs (List.cons_ne_nil output others), stdout_write _ _⟩
      | nil =>
          cases polys with
          | nil => exact ⟨"", .nothing, stdout_write _ _⟩
          | cons top below => exact ⟨_, .top top below, stdout_write _ _⟩

/-- A transcript and one that goes on from it, whose own part alone is in `next`. -/
def followedBy (t next : Transcript) : Transcript :=
  { next with
    written := t.written ++ next.written
    complaints := t.complaints ++ next.complaints }

theorem followedBy_forget (t : Transcript) : t.followedBy t.forget = t := by
  simp [followedBy, forget]

theorem stdout_followedBy (t next : Transcript) :
    (t.followedBy next).stdout = t.stdout ++ next.stdout := by
  rw [stdout, followedBy, List.map_append, String.join_append]
  rfl

theorem followedBy_write (t next : Transcript) (pieces : List Piece) :
    (t.followedBy next).write pieces = t.followedBy (next.write pieces) := by
  simp only [followedBy, write, List.append_assoc]

theorem followedBy_answer (t next : Transcript) (outcome : Outcome (List Output)) :
    (t.followedBy next).answer outcome = t.followedBy (next.answer outcome) := by
  obtain ⟨after, result⟩ := outcome
  cases result <;> simp only [followedBy, answer, write, List.append_assoc]

theorem followedBy_read (t next : Transcript) (line : List Char) :
    (t.followedBy next).read line = t.followedBy (next.read line) := by
  have same : (t.followedBy next).stack = next.stack := rfl
  rw [read, read, same]
  split
  · exact followedBy_write ..
  · split
    · rfl
    · split
      · exact followedBy_write ..
      · cases next.stack.executeLine line with
        | error fault => rfl
        | ok outcome => exact followedBy_answer ..

theorem followedBy_advance (v : Verbosity) (t next : Transcript) (event : Event) :
    (t.followedBy next).advance v event = t.followedBy (next.advance v event) := by
  cases finished : next.exit with
  | some exit =>
      have ended : next.exit.isSome := by rw [finished]; rfl
      rw [advance_over ended]
      exact advance_over (t := t.followedBy next) ended event
  | none =>
      have goesOn : (t.followedBy next).exit = none := finished
      cases event with
      | ok typed =>
          rw [advance_ok finished, advance_ok goesOn]
          exact followedBy_read ..
      | error cause =>
          rw [advance_error finished, advance_error goesOn]
          cases cause with
          | interrupted => exact congrArg (leave · .success) (followedBy_write ..)
          | endOfInput => exact congrArg (leave · .success) (followedBy_write ..)
          | failed message => rfl

/-- What a session has written plays no part in what it goes on to write, so a session
can be shown as it goes. -/
theorem foldl_advance_eq (v : Verbosity) (t : Transcript) (events : List Event) :
    events.foldl (advance v) t = t.followedBy (events.foldl (advance v) t.forget) :=
  calc events.foldl (advance v) t
    _ = events.foldl (advance v) (t.followedBy t.forget) := by rw [followedBy_forget]
    _ = _ := List.foldl_hom t.followedBy fun next event => followedBy_advance v t next event

end Transcript

theorem stdout_start (v : Verbosity) : (start v).stdout = greeting v ++ "poly> " := by
  rw [start, Transcript.stdout, List.map_append, String.join_append, aside_eq]
  rfl

namespace Folds

theorem ended (v : Verbosity) (t : Transcript) :
    Folds v t [] t.stack ((t.write (aside v .endOfInput)).leave .success) := by
  have nothing : farewell v [] = if v = .quiet then "" else "CTRL-D\n" := by simp [farewell]
  refine ⟨rfl, rfl, [], [], .nil _, .nil, ?_⟩
  change (t.write (aside v .endOfInput)).stdout = t.stdout ++ "" ++ farewell v []
  rw [Transcript.stdout_write, aside_eq, nothing, String.append_empty]
  rfl

theorem leave (t : Transcript) (leaves : Text.trim typed ∈ leaving) :
    Folds v t (typed :: rest) t.stack (t.leave .success) := by
  refine ⟨rfl, rfl, [], [], ?_, .nil, ?_⟩
  · rw [commandLines_leaving leaves]
    exact .nil _
  · rw [staying_leaving leaves, farewell_leaving leaves, dialogue, String.append_empty,
      String.append_empty]
    rfl

/-- A line that is skipped shows what it shows and leaves the answers to the others. -/
theorem skip {pieces : List Piece} (stays : Text.trim typed ∉ leaving)
    (skips : Text.trim typed ∈ skipped)
    (shown : ∀ answers, dialogue (Text.trim typed :: staying rest) answers =
      String.join (pieces.map Piece.text) ++ dialogue (staying rest) answers)
    (folds : Folds v (before.write pieces) rest final t) :
    Folds v before (typed :: rest) final t := by
  obtain ⟨outcomes, answers, fed, shows, written⟩ := folds.answered
  refine ⟨folds.stack, folds.exit, outcomes, answers, ?_, shows, ?_⟩
  · rw [commandLines_skipped stays skips]
    exact fed
  · rw [written, Transcript.stdout_write, staying_cons stays, farewell_cons stays, shown,
      ← String.append_assoc]

theorem blank (blank : Text.trim typed = [])
    (folds : Folds v (before.write [.prompt]) rest final t) :
    Folds v before (typed :: rest) final t := by
  have stays : Text.trim typed ∉ leaving := by rw [blank]; decide
  refine skip stays (mem_skipped_iff.mpr (.inl blank)) (fun answers => ?_) folds
  rw [dialogue, if_pos blank]
  simp

theorem help (help : Text.trim typed = "help".toList)
    (folds : Folds v (before.write [.help, .prompt]) rest final t) :
    Folds v before (typed :: rest) final t := by
  have stays : Text.trim typed ∉ leaving := by rw [help]; decide
  have nonblank : Text.trim typed ≠ [] := by rw [help]; decide
  refine skip stays (mem_skipped_iff.mpr (.inr help)) (fun answers => ?_) folds
  rw [dialogue, if_neg nonblank, if_pos help]
  simp

theorem command (stays : Text.trim typed ∉ leaving) (counts : Text.trim typed ∉ skipped)
    (first : before.stack.LineOutcome (Text.trim typed) outcome)
    (folds : Folds v (before.answer outcome) rest final t) :
    Folds v before (typed :: rest) final t := by
  obtain ⟨nonblank, notHelp⟩ := not_or.mp (mt mem_skipped_iff.mpr counts)
  obtain ⟨outcomes, answers, fed, shows, written⟩ := folds.answered
  obtain ⟨text, shown, answered⟩ := before.exists_shows outcome
  rw [Transcript.answer_stack] at fed
  refine ⟨folds.stack, folds.exit, outcome :: outcomes, text :: answers, ?_, .cons shown shows, ?_⟩
  · rw [commandLines_command stays counts]
    exact .cons first fed
  · rw [written, answered, staying_cons stays, farewell_cons stays, dialogue, if_neg nonblank,
      if_neg notHelp]
    simp [String.append_assoc]

end Folds

/-- Each typed line leaves, is skipped, or feeds the calculator and answers. -/
theorem foldl_advance_folds (goesOn : t.exit = none)
    (faultless : (commandLines lines).foldlM feed t.stack = .ok final) :
    Folds v t lines final
      ((Typing.events ⟨lines, .endOfInput⟩).foldl (Transcript.advance v) t) := by
  induction lines generalizing t with
  | nil =>
      cases faultless
      change Folds v t [] t.stack (t.advance v (.error .endOfInput))
      rw [Transcript.advance_error goesOn]
      exact .ended v t
  | cons typed rest ih =>
      change Folds v t (typed :: rest) final
        ((Typing.events ⟨rest, .endOfInput⟩).foldl (Transcript.advance v) (t.advance v (.ok typed)))
      rw [Transcript.advance_ok goesOn]
      by_cases leaves : Text.trim typed ∈ leaving
      · rw [commandLines_leaving leaves] at faultless
        cases faultless
        rw [Transcript.read_leaving leaves, Transcript.foldl_advance_over rfl]
        exact .leave t leaves
      · by_cases skips : Text.trim typed ∈ skipped
        · rw [commandLines_skipped leaves skips] at faultless
          rcases mem_skipped_iff.mp skips with blank | help
          · rw [blank]
            exact .blank blank (ih goesOn faultless)
          · rw [help]
            exact .help help (ih goesOn faultless)
        · rw [commandLines_command leaves skips] at faultless
          obtain ⟨outcome, executed, others⟩ := foldlM_feed_cons_iff.mp faultless
          rw [Transcript.read_command leaves skips executed]
          rw [← t.answer_stack outcome] at others
          exact .command leaves skips (Stack.executeLine_ok_iff.mp executed)
            (ih ((t.answer_exit outcome).trans goesOn) others)

/-- A session whose lines do not fault is a fold over those that reach the calculator:
each goes on from the stack the one before it left, also where that one failed.  The
standard output holds what each of them shows, its outputs or else the top, between the
prompts, the help texts, the greeting and the farewell. -/
theorem run_folds (v : Verbosity) {typed : List (List Char)} {final : Stack}
    (faultless : (commandLines typed).foldlM feed .empty = .ok final) :
    let t := run v ⟨typed, .endOfInput⟩
    t.stack = final ∧ t.exit = some ⟨0, none⟩ ∧
      ∃ outcomes answers, Fed .empty (commandLines typed) outcomes final ∧
        List.Forall₂ Shows outcomes answers ∧
        t.stdout = greeting v ++ "poly> " ++ dialogue (staying typed) answers ++
          farewell v typed := by
  have folds : Folds v (start v) typed final (run v ⟨typed, .endOfInput⟩) :=
    foldl_advance_folds rfl faultless
  obtain ⟨outcomes, answers, fed, shows, written⟩ := folds.answered
  rw [stdout_start] at written
  exact ⟨folds.stack, folds.exit, outcomes, answers, fed, shows, written⟩

/-- The second sum lacks an operand, and the line after it doubles the first. -/
theorem second_sum_underflows :
    let typed := ["x 1", " ", "help", "+", "+ p", "dup s p\t", " quit ", "p"].map String.toList
    let sum : Poly := (Poly.monomial 1 1).add (.monomial 1 0)
    let t := run .normal ⟨typed, .endOfInput⟩
    (commandLines typed).foldlM feed .empty = .ok ⟨[sum, sum]⟩ ∧ t.stack = ⟨[sum, sum]⟩ ∧
      t.exit = some ⟨0, none⟩ ∧
      t.stdout = "polycalc v0.1.0\nType help for commands, quit to leave.\n\n" ++
        "poly> 1\npoly> poly> " ++
        "Words are read left to right; anything that is not a command is pushed.\n" ++
        "  x^2-1  push <poly>      push a polynomial\n" ++
        "  add +  sub -  mul *     combine the top two (second op top)\n" ++
        "  div /                   truncated quotient\n" ++
        "  diff d  integ i         derivative, antiderivative\n" ++
        "  dup  swap  pop  clear   stack manipulation\n" ++
        "  eval <x>                evaluate the top at x\n" ++
        "  defint <a> <b>          integral of the top from a to b\n" ++
        "  print p  stack s        show the top, show the whole stack\n" ++
        "  help  quit              this text, leave\n" ++
        "poly> x+1\npoly> poly> 0: x+1\n1: x+1\nx+1\npoly> " := by
  intro typed sum t
  let double : Stack := ⟨[sum, sum]⟩
  have lines : commandLines typed = ["x 1", "+", "+ p", "dup s p"].map String.toList := by decide
  have first : Stack.empty.executeLine "x 1".toList =
      .ok ⟨⟨[.monomial 1 0, .monomial 1 1]⟩, .ok []⟩ := by
    have words : Text.words (Command.code "x 1".toList) = [['x'], ['1']] := by decide
    rw [Stack.executeLine_of_words words
      (Command.ofWords_cons rfl (Command.ofWords_cons rfl Command.ofWords_nil))]
    rfl
  have second : (Stack.mk [.monomial 1 0, .monomial 1 1]).executeLine "+".toList =
      .ok ⟨⟨[sum]⟩, .ok []⟩ := by
    have words : Text.words (Command.code "+".toList) = [['+']] := by decide
    rw [Stack.executeLine_of_words words (Command.ofWords_cons rfl Command.ofWords_nil)]
    rfl
  have third : (Stack.mk [sum]).executeLine "+ p".toList =
      .ok ⟨⟨[sum]⟩, .error (.stack (.underflow 2 1))⟩ := by
    have words : Text.words (Command.code "+ p".toList) = [['+'], ['p']] := by decide
    rw [Stack.executeLine_of_words words
      (Command.ofWords_cons rfl (Command.ofWords_cons rfl Command.ofWords_nil))]
    rfl
  have fourth : (Stack.mk [sum]).executeLine "dup s p".toList =
      .ok ⟨double, .ok [.stack double, .poly sum]⟩ := by
    have words : Text.words (Command.code "dup s p".toList) = ["dup".toList, ['s'], ['p']] := by
      decide
    rw [Stack.executeLine_of_words words
      (Command.ofWords_cons rfl (Command.ofWords_cons rfl
        (Command.ofWords_cons rfl Command.ofWords_nil)))]
    rfl
  have faultless : (commandLines typed).foldlM feed .empty = .ok double := by
    rw [lines]
    exact foldlM_feed_cons_iff.mpr ⟨_, first, foldlM_feed_cons_iff.mpr ⟨_, second,
      foldlM_feed_cons_iff.mpr ⟨_, third, foldlM_feed_cons_iff.mpr ⟨_, fourth, rfl⟩⟩⟩⟩
  obtain ⟨stack, exit, outcomes, answers, fed, shows, written⟩ := run_folds .normal faultless
  rw [lines] at fed
  have outcome := fed.unique (.cons (Stack.executeLine_ok_iff.mp first)
    (.cons (Stack.executeLine_ok_iff.mp second) (.cons (Stack.executeLine_ok_iff.mp third)
      (.cons (Stack.executeLine_ok_iff.mp fourth) (.nil double)))))
  rw [outcome] at shows
  have texts := List.right_unique_forall₂' shows_unique shows
    (.cons (.top ..) (.cons (.top ..) (.cons .failed
      (.cons (.outputs (List.cons_ne_nil _ _)) .nil))))
  refine ⟨faultless, stack, exit, written.trans ?_⟩
  rw [texts]
  decide +kernel

end

end ExactPoly.CommandLine.Session
