import ExactPoly.CommandLine.Options

namespace ExactPoly.CommandLine

/-! The reader of configuration files of the executable.

The file holds one `key: value` pair a line, with comments after a number sign.
Each of the three keys may be left out or have no value.
-/

inductive SettingsError where
  /-- A line that is no pair of a key and a value. -/
  | malformed (line : String)
  | unknownKey (key : String)
  | repeatedKey (key : String)
  | invalidValue (value : String)
deriving DecidableEq

def SettingsError.message : SettingsError → String
  | malformed line => "malformed line `" ++ line ++ "`"
  | unknownKey key => "unknown field `" ++ key ++ "`"
  | repeatedKey key => "duplicate field `" ++ key ++ "`"
  | invalidValue value => "invalid value `" ++ value ++ "`"

namespace Settings

/-- Drops a comment: a number sign at the start or after a blank, and all behind it. -/
def dropComment (previous : Char) : List Char → List Char
  | [] => []
  | c :: rest =>
      if c = '#' ∧ Text.isBlank previous then [] else c :: dropComment c rest

/-- The key and the value around the first colon that a blank or the line's end follows. -/
def splitPair : List Char → Option (List Char × List Char)
  | [] => none
  | [':'] => some ([], [])
  | ':' :: ' ' :: value => some ([], value)
  | c :: rest => (splitPair rest).map (fun (key, value) => (c :: key, value))

def nullNames : List String :=
  ["", "~", "null", "Null", "NULL"]

def optional {α : Type} (value : String) (read : String → Option α) :
    Except SettingsError (Option α) :=
  if value ∈ nullNames then .ok none
  else
    match read value with
    | some x => .ok (some x)
    | none => .error (.invalidValue value)

def readBool? (value : String) : Option Bool :=
  if value ∈ ["true", "True", "TRUE"] then some true
  else if value ∈ ["false", "False", "FALSE"] then some false
  else none

def assign (config : Config) (key value : String) : Except SettingsError Config :=
  if key = "verbosity" then
    (optional value Verbosity.named?).map (fun v => { config with verbosity := v })
  else if key = "history_file" then
    (optional value some).map (fun v => { config with historyFile := v })
  else if key = "no_history" then
    (optional value readBool?).map (fun v => { config with noHistory := v })
  else .error (.unknownKey key)

/-- The pair of a line; a blank line has none. -/
def readLine (line : List Char) : Except SettingsError (Option (String × String)) :=
  let content := Text.trim (dropComment ' ' line)
  if content = [] then .ok none
  else
    match splitPair content with
    | some (key, value) =>
        .ok (some (String.ofList (Text.trim key), String.ofList (Text.trim value)))
    | none => .error (.malformed (String.ofList line))

/-- Applies the pairs of the lines in order; `seen` holds the keys so far. -/
def readLines (config : Config) (seen : List String) :
    List (List Char) → Except SettingsError Config
  | [] => .ok config
  | line :: rest => do
      match ← readLine line with
      | none => readLines config seen rest
      | some (key, value) =>
          if key ∈ seen then throw (.repeatedKey key)
          else readLines (← assign config key value) (key :: seen) rest

def read (text : String) : Except String Config :=
  (readLines {} [] (Text.lines text.toList)).mapError SettingsError.message

end Settings

end ExactPoly.CommandLine
