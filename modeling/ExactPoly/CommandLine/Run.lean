import ExactPoly.CommandLine.Session

namespace ExactPoly

def Text.LineError.message : Text.LineError → String
  | invalidText => "stream did not contain valid UTF-8"

namespace CommandLine

/-! A run of the program from its arguments to its report.

Lines given as arguments come first, then a script, then a session if standard
input is a terminal, and otherwise the lines of standard input.  How arguments are
parsed, what a configuration file says and where the log goes is up to the host.
Reports hold neither the lines of the log nor the history that the line editor keeps:
a failure to load or save it only shows in the log.
-/

/-- Runs lines of which the first has the given number.  A failing line shows
none of its outputs, and its number is reported with the name of the source. -/
def runLines (source : String) (number : Nat) (s : Stack) :
    List (Except Text.LineError (List Char)) → Report
  | [] => .silent .success
  | .error cause :: _ => .silent (.failure (source ++ ": read error: " ++ cause.message))
  | .ok line :: rest =>
      match s.executeLine line with
      | .error fault => .silent (.fault fault)
      | .ok ⟨_, .error cause⟩ =>
          .silent (.failure (source ++ ":" ++ toString number ++ ": " ++ cause.message))
      | .ok ⟨after, .ok outputs⟩ =>
          (runLines source (number + 1) after rest).after (Output.render outputs)

/-- What a run asks of the world around it.  An error is the text of its cause. -/
structure Host where
  /-- The options of an argument list, or the report of a run that they end at once. -/
  options : List String → Except Report Options
  /-- The configuration that a text stands for. -/
  settings : String → Except String Config
  startLog : Level → Except String Unit
  configDirectory : Option String
  /-- Whether there is something at a path. -/
  present : String → Bool
  read : String → Except String String
  /-- Whether standard input is a terminal. -/
  terminal : Bool
  input : ByteArray
  /-- What is typed at the terminal, unless the line editor cannot be set up. -/
  typing : Except String Session.Typing

/-- Why a run ends before it has begun. -/
inductive SetupError where
  | unreadableConfig (path cause : String)
  | invalidConfig (path cause : String)
  | noLog (cause : String)
  | unreadableScript (path cause : String)
deriving DecidableEq

def SetupError.message : SetupError → String
  | unreadableConfig path cause => "cannot read config file " ++ path ++ ": " ++ cause
  | invalidConfig path cause => "invalid config file " ++ path ++ ": " ++ cause
  | noLog cause => "Failed to set tracing subscriber: " ++ cause
  | unreadableScript path cause => "cannot read " ++ path ++ ": " ++ cause

/-- The path of an entry of a directory. -/
def entryPath (directory name : String) : String :=
  match directory.toList.getLast? with
  | none | some '/' => directory ++ name
  | some _ => directory ++ "/" ++ name

def defaultConfigPath (directory : String) : String :=
  entryPath (entryPath directory "polycalc") "config.yaml"

/-- The work that is left once everything is set up. -/
inductive Task where
  | lines (source : String) (lines : List (List Char))
  | session (verbosity : Verbosity)
  | input

namespace Host

/-- The configuration file to read: the one asked for, or the default one if it is there. -/
def configPath (host : Host) (o : Options) : Option String :=
  o.config <|> ((host.configDirectory.map defaultConfigPath).filter host.present)

/-- A blank text stands for the configuration without any key. -/
def readConfig (host : Host) (text : String) : Except String Config :=
  if Text.trim text.toList = [] then .ok {} else host.settings text

def config (host : Host) (o : Options) : Except SetupError Config :=
  match host.configPath o with
  | none => .ok {}
  | some path =>
      match host.read path with
      | .error cause => .error (.unreadableConfig path cause)
      | .ok text => (host.readConfig text).mapError (.invalidConfig path)

def log (host : Host) (verbosity : Verbosity) : Except SetupError Unit :=
  match verbosity.level? with
  | none => .ok ()
  | some level => (host.startLog level).mapError .noLog

def task (host : Host) (o : Options) : Except SetupError Task :=
  if o.lines ≠ [] then .ok (.lines "-e" (o.lines.map String.toList))
  else
    match o.script with
    | some path =>
        match host.read path with
        | .error cause => .error (.unreadableScript path cause)
        | .ok text => .ok (.lines path (Text.lines text.toList))
    | none => .ok (if host.terminal then .session o.effectiveVerbosity else .input)

def setup (host : Host) (o : Options) : Except SetupError Task := do
  let config ← host.config o
  let o := o.merge config
  host.log o.effectiveVerbosity
  host.task o

/-- The work that an argument list asks for, or the report of a run that ends before any. -/
def prepare (host : Host) (arguments : List String) : Except Report Task := do
  let o ← host.options arguments
  (host.setup o).mapError (fun cause => .silent (.failure cause.message))

def perform (host : Host) : Task → Report
  | .lines source given => runLines source 1 .empty (given.map .ok)
  | .session verbosity =>
      match host.typing with
      | .error cause => .silent (.failure cause)
      | .ok typing => (Session.run verbosity typing).report
  | .input => runLines "<stdin>" 1 .empty (Text.byteLines host.input)

def run (host : Host) (arguments : List String) : Report :=
  match host.prepare arguments with
  | .error report => report
  | .ok task => host.perform task

end Host

end CommandLine

end ExactPoly
