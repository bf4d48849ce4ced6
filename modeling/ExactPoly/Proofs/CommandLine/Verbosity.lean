import ExactPoly.Proofs.CommandLine.Arguments
import ExactPoly.Proofs.CommandLine.Batch
import ExactPoly.Proofs.CommandLine.Session

namespace ExactPoly.CommandLine

/-! Where the verbosity of a session comes from, and what of it shows.

On standard output only quiet sessions differ: they leave out the banner and the note
at the end of the input.  A verbosity that was asked for wins over the configured one,
with one exception: `normal` does not win over `quiet`.
-/

variable {v w : Verbosity} {typing : Session.Typing}

namespace Session

theorem aside_congr (same : v = .quiet ↔ w = .quiet) : aside v = aside w := by
  funext piece
  simp only [aside, Verbosity.normal_le_iff, ne_eq, same]

theorem Transcript.advance_congr (same : v = .quiet ↔ w = .quiet) : advance v = advance w := by
  funext t event
  cases event with
  | ok typed => rfl
  | error cause =>
      cases cause with
      | failed message => rfl
      | _ => simp only [advance, interrupt, aside_congr same]

theorem run_congr (same : v = .quiet ↔ w = .quiet) : run v typing = run w typing := by
  rw [run, run, Transcript.advance_congr same, start, start, aside_congr same]

/-- The first thing that a session writes is the prompt when it is quiet and the banner
when it is not. -/
theorem exists_stdout_run (v : Verbosity) (typing : Typing) :
    ∃ rest, (run v typing).stdout = greeting v ++ ("poly> " ++ rest) := by
  refine ⟨(typing.events.foldl (Transcript.advance v) (start v).forget).stdout, ?_⟩
  rw [run, Transcript.foldl_advance_eq, Transcript.stdout_followedBy, stdout_start,
    String.append_assoc]

theorem eq_quiet_iff_prompt_first (v : Verbosity) (typing : Typing) :
    v = .quiet ↔ "poly> ".toList <+: (run v typing).stdout.toList := by
  obtain ⟨rest, written⟩ := exists_stdout_run v typing
  rw [written, greeting]
  constructor
  · intro quiet
    rw [if_pos quiet, String.empty_append, String.toList_append]
    exact List.prefix_append ..
  · intro prompted
    by_contra loud
    rw [if_neg loud, String.toList_append] at prompted
    have within := List.prefix_of_prefix_length_le prompted (List.prefix_append ..) (by decide)
    exact absurd within (by decide)

theorem run_stdout_eq_iff :
    (run v typing).stdout = (run w typing).stdout ↔ (v = .quiet ↔ w = .quiet) := by
  constructor
  · intro same
    rw [eq_quiet_iff_prompt_first v typing, same, ← eq_quiet_iff_prompt_first]
  · intro same
    rw [run_congr same]

end Session

variable {o : Options} {config : Config} {host other : Host} {arguments : List String}
  {given : List String → Option Verbosity}

/-- A verbosity of `normal` is filled from the configuration, as if it had been left open. -/
theorem Options.merge_effectiveVerbosity (loud : o.quiet = false) :
    (o.merge config).effectiveVerbosity =
      if o.verbosity = .normal then config.verbosity.getD .normal else o.verbosity := by
  have effective : (o.merge config).effectiveVerbosity = (o.merge config).verbosity :=
    if_neg (show ¬ o.quiet = true from Bool.eq_false_iff.mp loud)
  rw [effective, merge]
  split
  · rename_i normal
    rw [normal]
  · rfl

theorem Host.task_of_session (noLines : o.lines = []) (noScript : o.script = none)
    (terminal : host.terminal = true) : host.task o = .ok (.session o.effectiveVerbosity) := by
  rw [task, if_neg (not_not_intro noLines), noScript, terminal]
  rfl

theorem Host.log_of_starts (starts : ∀ level, host.startLog level = .ok ()) (v : Verbosity) :
    host.log v = .ok () := by
  rw [log]
  cases v.level? with
  | none => rfl
  | some level => exact mapError_ok_iff.mpr (starts level)

/-- A parser that reads the verbosity as documented.  An argument list has the one that it
gives, or else `normal`; one that gives none can have one in front, which then counts and
leaves the other options as they were. -/
structure ParsesVerbosity (parse : List String → Except Report Options)
    (given : List String → Option Verbosity) : Prop where
  parsed {arguments : List String} {o : Options} :
    parse arguments = .ok o → o.verbosity = (given arguments).getD .normal
  prepended {arguments : List String} {o : Options} (v : Verbosity) :
    given arguments = none → parse arguments = .ok o →
      parse ("--verbosity" :: v.name :: arguments) = .ok { o with verbosity := v }

theorem Arguments.parsesVerbosity : ParsesVerbosity parse givenVerbosity where
  parsed {arguments o} read := by
    rw [parse] at read
    rw [givenVerbosity]
    split at read
    · contradiction
    · contradiction
    · contradiction
    · rename_i asked
      rw [asked]
      cases read
      rfl
  prepended {arguments o} v unset read := by
    rw [parse] at read
    rw [givenVerbosity] at unset
    split at read
    · contradiction
    · contradiction
    · contradiction
    · rename_i asked
      rw [asked] at unset
      cases read
      rw [parse, Request.ofArguments_asking v unset asked]
      rfl

/-- A host where these options start a session with this configuration and this typing. -/
structure SessionAt (host : Host) (o : Options) (config : Config) (typing : Session.Typing) :
    Prop where
  noLines : o.lines = []
  noScript : o.script = none
  loud : o.quiet = false
  terminal : host.terminal = true
  configured : host.config o = .ok config
  logs : ∀ level, host.startLog level = .ok ()
  typed : host.typing = .ok typing

theorem SessionAt.asking (session : SessionAt host o config typing) (v : Verbosity) :
    SessionAt host { o with verbosity := v } config typing :=
  ⟨session.noLines, session.noScript, session.loud, session.terminal, session.configured,
    session.logs, session.typed⟩

theorem SessionAt.run (session : SessionAt host o config typing)
    (parsed : host.options arguments = .ok o) :
    host.run arguments =
      (Session.run (if o.verbosity = .normal then config.verbosity.getD .normal else o.verbosity)
        typing).report := by
  have begins : host.Begins arguments o config :=
    ⟨parsed, session.configured, Host.log_of_starts session.logs _⟩
  have task : host.task (o.merge config) = .ok (.session (o.merge config).effectiveVerbosity) :=
    Host.task_of_session session.noLines session.noScript session.terminal
  rw [begins.run task, Host.perform, session.typed, Options.merge_effectiveVerbosity session.loud]

def Config.withoutVerbosity (config : Config) : Config :=
  { config with verbosity := none }

/-- A verbosity that was asked for wins over the configured one, except for `normal` over
`quiet`; without one, the configured verbosity counts as asked for. -/
theorem verbosity_precedence (parses : ParsesVerbosity host.options given)
    (sameParser : other.options = host.options) (parsed : host.options arguments = .ok o)
    (session : SessionAt host o config typing)
    (cleared : SessionAt other o config.withoutVerbosity typing) :
    (∀ v, given arguments = some v →
      ((host.run arguments).stdout = (other.run arguments).stdout ↔
        ¬ (v = .normal ∧ config.verbosity = some .quiet))) ∧
    (∀ w, given arguments = none → config.verbosity = some w →
      host.run arguments = other.run ("--verbosity" :: w.name :: arguments)) := by
  rw [session.run parsed, parses.parsed parsed]
  constructor
  · intro v asks
    rw [cleared.run (sameParser ▸ parsed), parses.parsed parsed, asks]
    refine Session.run_stdout_eq_iff.trans ?_
    by_cases normal : v = .normal
    · cases config.verbosity <;> simp [normal, Config.withoutVerbosity]
    · simp [normal]
  · intro w unset found
    have parsedToo : other.options ("--verbosity" :: w.name :: arguments) =
        .ok { o with verbosity := w } :=
      sameParser ▸ parses.prepended w unset parsed
    rw [(cleared.asking w).run parsedToo, unset, found]
    by_cases normal : w = .normal
    · simp [normal, Config.withoutVerbosity]
    · simp [normal]

/-- A session that was asked to be `normal` keeps silent for a configured `quiet`. -/
theorem configured_quiet_silences_normal :
    let arguments := ["--verbosity", "normal"]
    let o : Options := { verbosity := .normal }
    let typing : Session.Typing := ⟨["x".toList], .endOfInput⟩
    let host (text : String) : Host :=
      { options := Arguments.parse, settings := Settings.read, startLog := fun _ => .ok (),
        configDirectory := some "xdg", present := fun _ => true, read := fun _ => .ok text,
        terminal := true, input := ByteArray.empty, typing := .ok typing }
    Arguments.givenVerbosity arguments = some .normal ∧
      Arguments.parse arguments = .ok o ∧
      SessionAt (host "verbosity: quiet\n") o { verbosity := some .quiet } typing ∧
      SessionAt (host "") o {} typing ∧
      ((host "verbosity: quiet\n").run arguments).stdout ≠ ((host "").run arguments).stdout := by
  intro arguments o typing host
  have parsed : Arguments.parse arguments = .ok o := rfl
  have session : SessionAt (host "verbosity: quiet\n") o { verbosity := some .quiet } typing :=
    ⟨rfl, rfl, rfl, rfl, by decide, fun _ => rfl, rfl⟩
  have cleared : SessionAt (host "") o {} typing :=
    ⟨rfl, rfl, rfl, rfl, by decide, fun _ => rfl, rfl⟩
  refine ⟨rfl, parsed, session, cleared, ?_⟩
  rw [session.run parsed, cleared.run parsed]
  exact mt Session.run_stdout_eq_iff.mp (by decide)

/-- A session asked to be quiet, and one left open, where `trace` is configured. -/
theorem configured_trace_yields :
    let typing : Session.Typing := ⟨["x".toList], .interrupted⟩
    let host (text : String) : Host :=
      { options := Arguments.parse, settings := Settings.read, startLog := fun _ => .ok (),
        configDirectory := some "xdg", present := fun _ => true, read := fun _ => .ok text,
        terminal := true, input := ByteArray.empty, typing := .ok typing }
    let traced := host "verbosity: trace\nno_history: true\n"
    let other := host "no_history: true\n"
    (traced.run ["--verbosity", "quiet"]).stdout = (other.run ["--verbosity", "quiet"]).stdout ∧
      traced.run [] = other.run ["--verbosity", "trace"] := by
  intro typing host traced other
  have quietParsed : traced.options ["--verbosity", "quiet"] = .ok { verbosity := .quiet } := rfl
  have openParsed : traced.options [] = .ok {} := rfl
  let config : Config := { verbosity := some .trace, noHistory := some true }
  have session : SessionAt traced {} config typing :=
    ⟨rfl, rfl, rfl, rfl, by decide, fun _ => rfl, rfl⟩
  have cleared : SessionAt other {} config.withoutVerbosity typing :=
    ⟨rfl, rfl, rfl, rfl, by decide, fun _ => rfl, rfl⟩
  have sameParser : other.options = traced.options := rfl
  obtain ⟨asks, -⟩ := verbosity_precedence Arguments.parsesVerbosity sameParser quietParsed
    (session.asking .quiet) (cleared.asking .quiet)
  obtain ⟨-, fills⟩ :=
    verbosity_precedence Arguments.parsesVerbosity sameParser openParsed session cleared
  exact ⟨(asks .quiet rfl).mpr (by decide), fills .trace rfl rfl⟩

end ExactPoly.CommandLine
