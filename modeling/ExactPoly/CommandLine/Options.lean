import ExactPoly.Arithmetic

namespace ExactPoly.CommandLine

/-! What a run is asked for, and what it leaves behind.

Options come from the arguments, and a configuration fills what they leave open.
-/

/-- In ascending order: each level shows what the one before it shows, and more. -/
inductive Verbosity where
  | quiet
  | normal
  | verbose
  | debug
  | trace
deriving DecidableEq, Ord

/-- The levels of the log; each includes those before it. -/
inductive Level where
  | info
  | debug
  | trace

namespace Verbosity

instance : LE Verbosity := leOfOrd

theorem normal_le_iff {v : Verbosity} : normal ≤ v ↔ v ≠ quiet := by
  cases v <;> decide

def name : Verbosity → String
  | quiet => "quiet"
  | normal => "normal"
  | verbose => "verbose"
  | debug => "debug"
  | trace => "trace"

def named? (name : String) : Option Verbosity :=
  [quiet, normal, verbose, debug, trace].find? (fun v => decide (v.name = name))

theorem named?_name (v : Verbosity) : named? v.name = some v := by
  cases v <;> decide

/-- The level of the log; below `verbose` there is none. -/
def level? : Verbosity → Option Level
  | quiet | normal => none
  | verbose => some .info
  | debug => some .debug
  | trace => some .trace

end Verbosity

structure Options where
  script : Option String := none
  lines : List String := []
  verbosity : Verbosity := .normal
  quiet : Bool := false
  config : Option String := none
  historyFile : Option String := none
  noHistory : Bool := false

/-- The keys of a configuration file, each of which may be absent. -/
structure Config where
  verbosity : Option Verbosity := none
  historyFile : Option String := none
  noHistory : Option Bool := none
deriving DecidableEq

namespace Options

/-- The verbosity that holds: the quiet flag wins. -/
def effectiveVerbosity (o : Options) : Verbosity :=
  if o.quiet then .quiet else o.verbosity

/-- Fills what is left open.  A verbosity of `normal` counts as left open. -/
def merge (o : Options) (config : Config) : Options :=
  { o with
    verbosity := if o.verbosity = .normal then config.verbosity.getD o.verbosity else o.verbosity
    historyFile := o.historyFile <|> config.historyFile
    noHistory := o.noHistory || config.noHistory == some true }

end Options

/-- How a run ends: its status, and its last message if it does not succeed. -/
structure Exit where
  status : Nat
  message : Option String
deriving DecidableEq

namespace Exit

def success : Exit := ⟨0, none⟩

def failure (message : String) : Exit := ⟨1, some message⟩

def fault (cause : Fault) : Exit := ⟨101, some cause.message⟩

end Exit

/-- What a run leaves behind, the log apart. -/
structure Report where
  stdout : String
  /-- The errors that a session survives, each in a line of its own. -/
  complaints : List String
  exit : Exit
deriving DecidableEq

namespace Report

/-- A run that ends without a word on the standard output. -/
def silent (exit : Exit) : Report := ⟨"", [], exit⟩

def after (r : Report) (stdout : String) : Report :=
  { r with stdout := stdout ++ r.stdout }

end Report

end ExactPoly.CommandLine
