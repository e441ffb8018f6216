import RepoSurvey.Config.Basic
import RepoSurvey.Json.Parser
import RepoSurvey.Text.Lines
import RepoSurvey.Text.Quoted
import RepoSurvey.Text.Upper

/-!
# A config from environment variables

Each setting has a variable of its own. A variable that is blank counts as absent; values that
are given explicitly win over the environment. `Config.ofEnvironment` collects the values and
checks them like given ones.
-/

namespace RepoSurvey

inductive ConfigError
  /-- A variable that should hold a whole number holds something else. -/
  | notInteger (variableName : String) (raw : String)
  | invalid (failures : List Failure)
  deriving DecidableEq, Repr

namespace ConfigError

def message : ConfigError → String
  | .notInteger name raw =>
    name ++ " must be an integer, got " ++ String.ofList (Text.quoted raw.toList)
  | .invalid failures => Failure.textOfAll failures

end ConfigError

namespace Config

/-- What the value of a variable is read as. -/
inductive Kind
  | integer
  | truth
  | nameList
  deriving DecidableEq, Repr

structure Setting where
  name : String
  kind : Kind
  deriving DecidableEq, Repr

def settings : List Setting :=
  [⟨"god_directory_threshold", .integer⟩, ⟨"max_nesting_depth", .integer⟩,
   ⟨"barrel_bloat_threshold", .integer⟩, ⟨"catch_all_threshold", .integer⟩,
   ⟨"mixed_export_min_named", .integer⟩, ⟨"naming_min_files", .integer⟩,
   ⟨"naming_min_bucket", .integer⟩, ⟨"max_file_size", .integer⟩, ⟨"context_radius", .integer⟩,
   ⟨"batch_size", .integer⟩, ⟨"extra_skip_dirs", .nameList⟩, ⟨"show_progress", .truth⟩]

def Setting.variableName (s : Setting) : String := "WHEELSCAN_" ++ s.name.toUpper

/-- The names between commas, without blanks around them. -/
def nameList (raw : List Char) : List String :=
  ((Text.splitAtEvery (· == ',') raw).map Text.trim).filterMap fun piece =>
    if piece.isEmpty then none else some (String.ofList piece)

/-- The value of a variable that is not blank, trimmed. -/
def Setting.value (s : Setting) (raw : List Char) : Except ConfigError Json :=
  match s.kind with
  | .integer =>
    match Number.setting? digitLimit raw with
    | some n => .ok (.int n)
    | none => .error (.notInteger s.variableName (String.ofList raw))
  | .truth =>
    let word := String.ofList (Text.lowerForKeywords raw)
    .ok (.bool (word == "1" || word == "true" || word == "yes"))
  | .nameList => .ok (.strings (nameList raw))

/-- The values that the environment gives, in the order of the settings. -/
def environmentValues (environment : Table String) : List Setting → Except ConfigError (Table Json)
  | [] => .ok []
  | s :: rest => do
    let raw := Text.trim ((environment.get? s.variableName).getD "").toList
    if raw.isEmpty then environmentValues environment rest
    else
      let value ← s.value raw
      let values ← environmentValues environment rest
      return (s.name, value) :: values

def isNull : Json → Bool
  | .null => true
  | _ => false

/-- A config from the environment, with explicit values that win over it unless they are null. -/
def ofEnvironment (environment : Table String) (explicit : Table Json) :
    Except ConfigError Config := do
  let values ← environmentValues environment settings
  match ofValues (Table.putAll values (explicit.filter fun (_, j) => !isNull j)) with
  | .valid config => return config
  | .invalid failures => throw (.invalid failures)

end Config

end RepoSurvey
