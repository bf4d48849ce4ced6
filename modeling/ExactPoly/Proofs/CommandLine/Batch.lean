import ExactPoly.CommandLine.Arguments
import ExactPoly.CommandLine.Run
import ExactPoly.CommandLine.Settings
import ExactPoly.Proofs.Calculator.Line
import ExactPoly.Proofs.Text.Lines

namespace ExactPoly

open CommandLine

/-! Batches of lines.

The lines of a batch run until the first that fails, and the report depends on the
lines alone, apart from the name of their source.  A script, standard input and
lines given as arguments are such batches of the same lines.
-/

theorem Output.render_append (outputs more : List Output) :
    render (outputs ++ more) = render outputs ++ render more := by
  rw [render, List.map_append, String.join_append]
  rfl

namespace Ending

def results {ω : Type} : Ending ω → List ω
  | completed results _ => results
  | failed _ results _ _ => results
  | faulted results _ => results

/-- The outputs of all lines before the end, with a line end after each. -/
def stdout (ending : Ending (List Output)) : String :=
  String.join (ending.results.flatten.map fun output => String.ofList output.print ++ "\n")

/-- A line that fails is reported with its number. -/
def exit (source : String) : Ending (List Output) → Exit
  | completed _ _ => ⟨0, none⟩
  | failed position _ _ cause =>
      ⟨1, some (source ++ ":" ++ toString (position + 1) ++ ": " ++ cause.message)⟩
  | faulted _ cause => ⟨101, some cause.message⟩

def report (source : String) (ending : Ending (List Output)) : Report :=
  ⟨ending.stdout, [], ending.exit source⟩

end Ending

namespace CommandLine

namespace Report

theorem after_nil (r : Report) : r.after "" = r := by
  rw [after, String.empty_append]

theorem after_after (r : Report) (first second : String) :
    (r.after second).after first = r.after (first ++ second) := by
  simp only [after, String.append_assoc]

theorem silent_after (exit : Exit) (stdout : String) :
    (silent exit).after stdout = ⟨stdout, [], exit⟩ := by
  simp only [after, silent, String.append_empty]

end Report

variable {source : String} {s reached : Stack} {before lines : List (List Char)}
  {results : List (List Output)} {ending : Ending (List Output)}

/-- Lines that succeed show their outputs and hand their stack over to the rest. -/
theorem runLines_append (succeeded : Completed Stack.executeLine s before results reached)
    (number : Nat) (rest : List (Except Text.LineError (List Char))) :
    runLines source number s (before.map .ok ++ rest) =
      (runLines source (number + before.length) reached rest).after
        (Output.render results.flatten) := by
  induction succeeded generalizing number with
  | nil s => exact (Report.after_nil _).symm
  | @cons s next reached line lines outputs results first _ ih =>
      have position : number + 1 + lines.length = number + (lines.length + 1) := by omega
      rw [List.map_cons, List.cons_append, runLines, first]
      dsimp only
      rw [ih, Report.after_after, List.flatten_cons, Output.render_append, List.length_cons,
        position]

theorem runLines_of_ended (ended : Ended Stack.executeLine s lines ending) :
    runLines source 1 s (lines.map .ok) = ending.report source := by
  cases ended with
  | completed all =>
      have ran : runLines source 1 s (lines.map .ok ++ []) = _ := runLines_append all 1 []
      rw [List.append_nil] at ran
      rw [ran]
      exact Report.silent_after ..
  | failed succeeded failed rest =>
      rw [List.map_append, List.map_cons, runLines_append succeeded, runLines, failed]
      dsimp only
      rw [Report.silent_after, Nat.add_comm]
      rfl
  | faulted succeeded failed rest =>
      rw [List.map_append, List.map_cons, runLines_append succeeded, runLines, failed]
      exact Report.silent_after ..

/-- Arguments that get as far as their work: they are parsed, the configuration is read,
and the log starts if there is to be one. -/
structure Host.Begins (host : Host) (arguments : List String) (o : Options) (config : Config) :
    Prop where
  parsed : host.options arguments = .ok o
  configured : host.config o = .ok config
  logged : host.log (o.merge config).effectiveVerbosity = .ok ()

namespace Host

variable {host : Host} {arguments : List String} {o : Options} {config : Config}

theorem task_of_lines (nonempty : o.lines ≠ []) :
    host.task o = .ok (.lines "-e" (o.lines.map String.toList)) :=
  if_pos nonempty

theorem task_of_script {path text : String} (noLines : o.lines = []) (given : o.script = some path)
    (found : host.read path = .ok text) :
    host.task o = .ok (.lines path (Text.lines text.toList)) := by
  rw [task, if_neg (not_not_intro noLines), given]
  dsimp only
  rw [found]

theorem task_of_input (noLines : o.lines = []) (noScript : o.script = none)
    (notTyped : host.terminal = false) : host.task o = .ok .input := by
  rw [task, if_neg (not_not_intro noLines), noScript]
  dsimp only
  rw [notTyped]
  rfl

theorem Begins.run {task : Task} (begins : host.Begins arguments o config)
    (chosen : host.task (o.merge config) = .ok task) :
    host.run arguments = host.perform task := by
  have setup : host.setup o = .ok task := by
    rw [Host.setup, begins.configured, ok_bind]
    dsimp only
    rw [begins.logged, ok_bind]
    exact chosen
  have prepared : host.prepare arguments = .ok task := by
    rw [prepare, begins.parsed, ok_bind, setup]
    rfl
  rw [Host.run, prepared]

end Host

/-- Ways to hand a text over to the program: as a script, on standard input, or with
its lines as arguments.  The index is the name of the source in reports. -/
inductive Handed (host : Host) (o : Options) (text : String) : String → Prop where
  | script {path : String} (noLines : o.lines = []) (given : o.script = some path)
      (found : host.read path = .ok text) : Handed host o text path
  | piped (noLines : o.lines = []) (noScript : o.script = none) (notTyped : host.terminal = false)
      (input : host.input = text.toUTF8) : Handed host o text "<stdin>"
  | lines (nonempty : o.lines ≠ []) (same : o.lines.map String.toList = Text.lines text.toList) :
      Handed host o text "-e"

theorem Handed.run {host : Host} {arguments : List String} {o : Options} {config : Config}
    {text : String} (begins : host.Begins arguments o config) (handed : Handed host o text source) :
    host.run arguments = runLines source 1 .empty ((Text.lines text.toList).map .ok) := by
  -- Merging a configuration changes neither the lines nor the script, so the task is
  -- the one for `o` itself.
  cases handed with
  | script noLines given found =>
      exact begins.run (Host.task_of_script noLines given found)
  | piped noLines noScript notTyped input =>
      rw [begins.run (Host.task_of_input noLines noScript notTyped), Host.perform, input,
        Text.byteLines_toUTF8]
  | lines nonempty same =>
      rw [begins.run (Host.task_of_lines nonempty), Host.perform]
      exact congrArg (fun given => runLines "-e" 1 .empty (given.map .ok)) same

/-- The lines of a text have an end as a batch, and handing the text over in any way
reports that end. -/
theorem batch_sources_agree (text : String) :
    (∃ ending, Ended Stack.executeLine .empty (Text.lines text.toList) ending) ∧
      ∀ (ending : Ending (List Output)) (host : Host) (arguments : List String) (o : Options)
        (config : Config) (source : String),
        Ended Stack.executeLine .empty (Text.lines text.toList) ending →
        host.Begins arguments o config → Handed host o text source →
        host.run arguments = ending.report source := by
  refine ⟨exists_ended _ _ _, ?_⟩
  intro ending host arguments o config source ended begins handed
  rw [handed.run begins, runLines_of_ended ended]

/-- A blank line and a carriage return before the line that fails. -/
theorem third_line_underflows :
    let text := "x 1 + p\r\n\nadd\np"
    let host : Host :=
      { options := Arguments.parse, settings := Settings.read, startLog := fun _ => .ok (),
        configDirectory := none, present := fun _ => false, read := fun _ => .ok text,
        terminal := false, input := text.toUTF8, typing := .ok ⟨[], .endOfInput⟩ }
    let report (source : String) : Report :=
      ⟨"x+1\n", [], ⟨1, some (source ++ ":3: stack underflow: needs 2 element(s), has 1")⟩⟩
    host.run ["-v", "trace", "s"] = report "s" ∧ host.run [] = report "<stdin>" ∧
      host.run ["-e", "x 1 + p", "-e", "", "-e", "add", "-e", "p"] = report "-e" := by
  intro text host report
  let sum : Poly := (Poly.monomial 1 1).add (.monomial 1 0)
  have first : Stack.empty.executeLine "x 1 + p".toList = .ok ⟨⟨[sum]⟩, .ok [.poly sum]⟩ := by
    have words : Text.words (Command.code "x 1 + p".toList) = [['x'], ['1'], ['+'], ['p']] := by
      decide
    rw [Stack.executeLine_of_words words
      (Command.ofWords_cons rfl (Command.ofWords_cons rfl (Command.ofWords_cons rfl
        (Command.ofWords_cons rfl Command.ofWords_nil))))]
    rfl
  have second : (Stack.mk [sum]).executeLine [] = .ok ⟨⟨[sum]⟩, .ok []⟩ := by
    have words : Text.words (Command.code []) = [] := rfl
    rw [Stack.executeLine_of_words words Command.ofWords_nil]
    rfl
  have third : (Stack.mk [sum]).executeLine "add".toList =
      .ok ⟨⟨[sum]⟩, .error (.stack (.underflow 2 1))⟩ := by
    have words : Text.words (Command.code "add".toList) = ["add".toList] := by decide
    rw [Stack.executeLine_of_words words (Command.ofWords_cons rfl Command.ofWords_nil)]
    rfl
  have split : Text.lines text.toList = ["x 1 + p".toList, [], "add".toList, ['p']] := by decide
  let ending : Ending (List Output) :=
    .failed 2 [[.poly sum], []] ⟨[sum]⟩ (.stack (.underflow 2 1))
  have ended : Ended Stack.executeLine .empty (Text.lines text.toList) ending := by
    rw [split]
    exact .failed (.cons first (.cons second (.nil _))) third [['p']]
  have reports (source : String) : ending.report source = report source := by
    have shown : ending.stdout = "x+1\n" := by decide
    have located : ":" ++ (toString 3 ++ (": " ++ (StackError.underflow 2 1).message)) =
        ":3: stack underflow: needs 2 element(s), has 1" := by decide
    rw [Ending.report, shown, Ending.exit]
    simp only [String.append_assoc]
    exact congrArg (fun rest => Report.mk "x+1\n" [] ⟨1, some (source ++ rest)⟩) located
  have agree := (batch_sources_agree text).2 ending host
  refine ⟨?_, ?_, ?_⟩
  · let o : Options := { script := some "s", verbosity := .trace }
    rw [agree _ o {} "s" ended ⟨rfl, rfl, rfl⟩ (.script rfl rfl rfl), reports]
  · rw [agree [] {} {} "<stdin>" ended ⟨rfl, rfl, rfl⟩ (.piped rfl rfl rfl rfl), reports]
  · let o : Options := { lines := ["x 1 + p", "", "add", "p"] }
    rw [agree _ o {} "-e" ended ⟨rfl, rfl, rfl⟩ (.lines (by decide) (by decide)), reports]

end CommandLine

end ExactPoly
