import JsonQuery.Platform
import JsonQuery.Settings.Toml
import JsonQuery.Text.Characters

/-!
# Settings

How results are shown: read from a settings file and overridden by environment variables.
-/

namespace JsonQuery

structure Settings where
  monochrome : Bool
  compact : Bool
  deriving DecidableEq, Repr

inductive SettingsError where
  | unreadable (path : String)
  | malformed (path : String)
  deriving DecidableEq, Repr

def SettingsError.message : SettingsError → String
  | .unreadable path => "couldn't read config file " ++ path
  | .malformed path => "invalid config file " ++ path

namespace Settings

def default : Settings := ⟨false, false⟩

/-- Takes each switch at most once and no others. -/
def ofEntries? (entries : List (String × Bool)) : Option Settings :=
  if (entries.map Prod.fst).Nodup ∧ entries.all (["monochrome", "compact"].contains ·.1) then
    some ⟨(entries.lookup "monochrome").getD false, (entries.lookup "compact").getD false⟩
  else none

def ofText? (text : String) : Option Settings :=
  (Toml.entries? text.toList).bind ofEntries?

/-- The settings in the file at `path`, given its content. -/
def ofFile (path : String) : FileContent → Except SettingsError Settings
  | .bytes content =>
    match String.fromUTF8? content with
    | none => .error (.unreadable path)
    | some text =>
      match ofText? text with
      | none => .error (.malformed path)
      | some settings => .ok settings
  | _ => .error (.unreadable path)

/-- A switch in an environment variable. Case and blanks around it do not matter. -/
def flag? (value : String) : Option Bool :=
  let word := String.ofList ((Text.trim value.toList).map Char.toLower)
  if ["1", "true", "yes", "on"].contains word then some true
  else if ["0", "false", "no", "off"].contains word then some false
  else none

/-- Applies the variables that `lookup` finds. One that is no switch is ignored, and a `NO_COLOR`
that is not empty always wins. -/
def override (settings : Settings) (lookup : String → Option String) : Settings :=
  let monochrome := ((lookup "JQL_MONOCHROME").bind flag?).getD settings.monochrome
  let compact := ((lookup "JQL_COMPACT").bind flag?).getD settings.compact
  let noColor := (lookup "NO_COLOR").any (· ≠ "")
  ⟨monochrome || noColor, compact⟩

def fileName : String := ".jql.toml"

/-- The settings file to read: the one at `path`, or the one in `home` if there is one. Only a
file that was asked for has to exist. -/
def source? (path home : Option String) (file : String → FileContent) : Option String :=
  match path with
  | some path => some path
  | none => (home.map (pathIn · fileName)).filter fun path => (file path).isPresent

/-- Reads a settings file and applies the environment. -/
def load (path home : Option String) (file : String → FileContent)
    (lookup : String → Option String) : Except SettingsError Settings :=
  match source? path home file with
  | none => .ok (default.override lookup)
  | some path => (ofFile path (file path)).map (·.override lookup)

end Settings

end JsonQuery
