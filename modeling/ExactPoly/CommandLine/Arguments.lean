import ExactPoly.CommandLine.Options

namespace ExactPoly.CommandLine

/-! The argument parser of the executable.

Arguments are first cut into items, from left to right, and the items are then
collected.  The first misuse decides, unless a request for the help text or the
version comes before it.
-/

inductive Flag where
  | quiet
  | noHistory
  | help
  | version
deriving DecidableEq

inductive Setting where
  | lines
  | verbosity
  | config
  | historyFile
deriving DecidableEq

def longNames : List (String × (Flag ⊕ Setting)) :=
  [("quiet", .inl .quiet), ("no-history", .inl .noHistory), ("help", .inl .help),
    ("version", .inl .version), ("eval", .inr .lines), ("verbosity", .inr .verbosity),
    ("config", .inr .config), ("history-file", .inr .historyFile)]

def shortNames : List (Char × (Flag ⊕ Setting)) :=
  [('q', .inl .quiet), ('h', .inl .help), ('V', .inl .version), ('e', .inr .lines),
    ('v', .inr .verbosity), ('c', .inr .config)]

inductive Misuse where
  | unknown (argument : String)
  | missingValue
  | needlessValue (value : String)
  | invalidValue (value : String)
  | repeated
deriving DecidableEq

def Misuse.message : Misuse → String
  | unknown argument => "unexpected argument '" ++ argument ++ "'"
  | missingValue => "an option lacks its value"
  | needlessValue value => "unexpected value '" ++ value ++ "' for an option that takes none"
  | invalidValue value => "invalid value '" ++ value ++ "'"
  | repeated => "an option cannot be used more than once"

inductive Item where
  | flag (name : Flag)
  | setting (name : Setting) (value : String)
  | positional (argument : String)
  | misuse (cause : Misuse)
deriving DecidableEq

namespace Item

/-- The items of an argument and the setting whose value is the next argument. -/
abbrev Reading := List Item × Option Setting

/-- An argument that begins with two dashes, of which `body` is the rest. -/
def ofLong (body : List Char) : Reading :=
  let name := String.ofList (body.takeWhile (fun c => decide (c ≠ '=')))
  match longNames.lookup name, body.dropWhile (fun c => decide (c ≠ '=')) with
  | none, _ => ([.misuse (.unknown (String.ofList ('-' :: '-' :: body)))], none)
  | some (.inl found), [] => ([.flag found], none)
  | some (.inl _), _ :: value => ([.misuse (.needlessValue (String.ofList value))], none)
  | some (.inr found), [] => ([], some found)
  | some (.inr found), _ :: value => ([.setting found (String.ofList value)], none)

/-- The names after a single dash.  The value of a setting may follow its name
directly or after an equals sign. -/
def ofShort : List Char → Reading
  | [] => ([], none)
  | name :: rest =>
      match shortNames.lookup name with
      | none => ([.misuse (.unknown (String.ofList ['-', name]))], none)
      | some (.inl found) =>
          let (items, pending) := ofShort rest
          (.flag found :: items, pending)
      | some (.inr found) =>
          match rest with
          | [] => ([], some found)
          | '=' :: value => ([.setting found (String.ofList value)], none)
          | value => ([.setting found (String.ofList value)], none)

/-- A lone dash is no option. -/
def isOption (argument : String) : Bool :=
  match argument.toList with
  | '-' :: _ :: _ => true
  | _ => false

/-- The items of all arguments.  After `--` every argument is positional. -/
def ofArguments (pending : Option Setting) : List String → List Item
  | [] => if pending.isSome then [.misuse .missingValue] else []
  | argument :: rest =>
      match pending with
      | some found =>
          if isOption argument then [.misuse .missingValue]
          else .setting found argument :: ofArguments none rest
      | none =>
          match argument.toList with
          | ['-', '-'] => rest.map .positional
          | '-' :: '-' :: body =>
              let (items, pending) := ofLong body
              items ++ ofArguments pending rest
          | '-' :: name :: names =>
              let (items, pending) := ofShort (name :: names)
              items ++ ofArguments pending rest
          | _ => .positional argument :: ofArguments none rest

end Item

/-- Options in the making; the verbosity is apart, since it may be given once only. -/
structure Arguments where
  options : Options := {}
  verbosity : Option Verbosity := none

namespace Arguments

/-- A file name given once; an empty one is invalid. -/
def single (old : Option String) (value : String) : Except Misuse (Option String) :=
  if old.isSome then .error .repeated
  else if value = "" then .error (.invalidValue value)
  else .ok (some value)

def set (a : Arguments) (value : String) : Setting → Except Misuse Arguments
  | .lines => .ok { a with options.lines := a.options.lines ++ [value] }
  | .config =>
      (single a.options.config value).map (fun config => { a with options.config := config })
  | .historyFile =>
      (single a.options.historyFile value).map (fun file => { a with options.historyFile := file })
  | .verbosity =>
      if a.verbosity.isSome then .error .repeated
      else
        match Verbosity.named? value with
        | none => .error (.invalidValue value)
        | some verbosity => .ok { a with verbosity := some verbosity }

def setScript (a : Arguments) (path : String) : Except Misuse Arguments :=
  if a.options.script.isSome then .error (.unknown path)
  else (single none path).map (fun script => { a with options.script := script })

end Arguments

inductive Request where
  | run (arguments : Arguments)
  | help
  | version

namespace Request

def ofItems (a : Arguments) : List Item → Except Misuse Request
  | [] => .ok (.run a)
  | .misuse cause :: _ => .error cause
  | .flag .help :: _ => .ok .help
  | .flag .version :: _ => .ok .version
  | .flag .quiet :: rest =>
      if a.options.quiet then .error .repeated
      else ofItems { a with options.quiet := true } rest
  | .flag .noHistory :: rest =>
      if a.options.noHistory then .error .repeated
      else ofItems { a with options.noHistory := true } rest
  | .setting setting value :: rest =>
      match a.set value setting with
      | .error cause => .error cause
      | .ok next => ofItems next rest
  | .positional argument :: rest =>
      match a.setScript argument with
      | .error cause => .error cause
      | .ok next => ofItems next rest

def ofArguments (arguments : List String) : Except Misuse Request :=
  ofItems {} (Item.ofArguments none arguments)

end Request

def versionText : String := "polycalc 0.1.0\n"

def usageLines : List String :=
  ["A postfix calculator for exact rational polynomials",
    "",
    "Usage: polycalc [OPTIONS] [FILE]",
    "",
    "Arguments:",
    "  [FILE]  Script file with one command line per line. Reads stdin if omitted",
    "",
    "Options:",
    "  -e, --eval <COMMANDS>        Execute a command line (repeatable)",
    "  -v, --verbosity <VERBOSITY>  quiet, normal, verbose, debug or trace",
    "  -q, --quiet                  Same as --verbosity quiet",
    "  -c, --config <FILE>          Configuration file",
    "      --history-file <FILE>    Interactive history file",
    "      --no-history             Do not load or save interactive history",
    "  -h, --help                   Print help",
    "  -V, --version                Print version"]

namespace Arguments

/-- The verbosity that an argument list gives, if it gives one. -/
def givenVerbosity (arguments : List String) : Option Verbosity :=
  match Request.ofArguments arguments with
  | .ok (.run a) => a.verbosity
  | _ => none

/-- Options with the verbosity that was given, which is `normal` if none was. -/
def toOptions (a : Arguments) : Options :=
  { a.options with verbosity := a.verbosity.getD .normal }

def parse (arguments : List String) : Except Report Options :=
  match Request.ofArguments arguments with
  | .error cause => .error (.silent ⟨2, some ("error: " ++ cause.message)⟩)
  | .ok .help => .error ((Report.silent .success).after (String.join (usageLines.map (· ++ "\n"))))
  | .ok .version => .error ((Report.silent .success).after versionText)
  | .ok (.run a) => .ok a.toOptions

end Arguments

end ExactPoly.CommandLine
