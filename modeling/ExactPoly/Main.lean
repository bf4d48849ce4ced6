import ExactPoly.CommandLine.Arguments
import ExactPoly.CommandLine.Run
import ExactPoly.CommandLine.Settings

namespace ExactPoly.CommandLine

/-! The executable: reads the world, asks the library, and writes its reports.  It keeps
no log, and a line is typed without an editor. -/

def systemMessage (cause : IO.Error) : String :=
  match cause with
  | .noFileOrDirectory .. => "No such file or directory (os error 2)"
  | .inappropriateType _ 21 _ => "Is a directory (os error 21)"
  | .inappropriateType .. => "Not a directory (os error 20)"
  | reason => toString reason

/-- Whether an error leaves open that there is something at the path. -/
def leavesPresent (cause : IO.Error) : Bool :=
  match cause with
  | .noFileOrDirectory .. => false
  | .inappropriateType _ code _ => code == 21
  | _ => true

/-- Whether there is something at a path, and its text. -/
def lookAt (path : String) : IO (Bool × Except String String) := do
  try
    match String.fromUTF8? (← IO.FS.readBinFile path) with
    | some text => return (true, .ok text)
    | none => return (true, .error Text.LineError.invalidText.message)
  catch cause => return (leavesPresent cause, .error (systemMessage cause))

/-- The directory for configuration files; a relative setting does not count. -/
def findConfigDirectory : IO (Option String) := do
  match ← IO.getEnv "XDG_CONFIG_HOME" with
  | some directory =>
      if directory.toList.head? = some '/' then return some directory
      else return (← IO.getEnv "HOME").map (· ++ "/.config")
  | none => return (← IO.getEnv "HOME").map (· ++ "/.config")

def neededPaths (arguments : List String) (configDirectory : Option String) : List String :=
  match Arguments.parse arguments with
  | .ok o => o.config.toList ++ o.script.toList ++ (configDirectory.map defaultConfigPath).toList
  | .error _ => []

def findHost (arguments : List String) : IO Host := do
  let configDirectory ← findConfigDirectory
  let found ← (neededPaths arguments configDirectory).mapM (fun path => do
    return (path, ← lookAt path))
  return {
    options := Arguments.parse
    settings := Settings.read
    startLog := fun _ => .ok ()
    configDirectory := configDirectory
    present := fun path => (found.lookup path).any Prod.fst
    read := fun path => ((found.lookup path).map Prod.snd).getD (.error "unread")
    terminal := ← (← IO.getStdin).isTty
    input := ByteArray.empty
    typing := .ok ⟨[], .endOfInput⟩ }

def Exit.write (exit : Exit) : IO UInt32 := do
  exit.message.forM IO.eprintln
  return exit.status.toUInt32

def Report.write (r : Report) : IO UInt32 := do
  IO.print r.stdout
  r.complaints.forM IO.eprintln
  r.exit.write

/-- The next line from the terminal. -/
def nextEvent : IO Session.Event := do
  try
    let line ← (← IO.getStdin).getLine
    return if line.isEmpty then .error .endOfInput else .ok line.toList
  catch cause => return .error (.failed (toString cause))

/-- Shows what a session has written and goes on from there with the next line. -/
partial def converse (verbosity : Verbosity) (t : Session.Transcript) : IO UInt32 := do
  IO.print t.stdout
  (← IO.getStdout).flush
  (t.complaints.map Session.Transcript.complaint).forM IO.eprintln
  match t.exit with
  | some exit => exit.write
  | none => converse verbosity (t.forget.advance verbosity (← nextEvent))

end ExactPoly.CommandLine

open ExactPoly.CommandLine in
def main (arguments : List String) : IO UInt32 := do
  let host ← findHost arguments
  match host.prepare arguments with
  | .error report => report.write
  | .ok (.session verbosity) => converse verbosity (Session.start verbosity)
  | .ok .input => ({ host with input := ← (← IO.getStdin).readBinToEnd }.perform .input).write
  | .ok task => (host.perform task).write
