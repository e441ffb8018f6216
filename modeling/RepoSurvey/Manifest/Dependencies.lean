import RepoSurvey.Error
import RepoSurvey.Manifest.Requirement
import RepoSurvey.Text.Lines
import RepoSurvey.Toml.Parser

/-!
# Dependencies declared by manifests

Each reader turns the text of a manifest into a table of names and version specifiers. A text
that is malformed declares nothing; the only failures are a whole number with too many digits and
a text that nests too deeply for the stack.
-/

namespace RepoSurvey.Manifest

abbrev Dependencies := Table String

/-- What a reader found, or nothing if the text is malformed. -/
def orNothing {α : Type} (nothing : α) : Except ReadError α → Except SurveyError α
  | .ok a => .ok a
  | .error .malformed => .ok nothing
  | .error (.tooManyDigits count) => .error (.tooManyDigits count)
  | .error (.tooDeep task) => .error (.tooDeep task)

/-! ## JSON -/

/-- The entries that are texts. -/
def textEntries (members : Table Json) : Dependencies :=
  members.filterMap fun (name, j) => j.str?.map fun s => (name, s)

def jsonSection (manifest : Json) (name : String) : Dependencies :=
  textEntries (((manifest.get? name).map Json.members).getD [])

/-- The dependencies, then those for development. -/
def ofPackageJson (nesting : Nat) (text : List Char) : Except SurveyError Dependencies := do
  let manifest ← orNothing .null (Json.read nesting text)
  return (Table.ofEntries (jsonSection manifest "dependencies")).putAll
    (jsonSection manifest "devDependencies")

/-! ## TOML -/

/-- A dependency given as a version, or as a table that may have one. -/
def spec? : Toml → Option String
  | .str s => some s
  | .table entries => some ((Table.get? entries "version").bind Toml.str? |>.getD anyVersion)
  | _ => none

def tomlEntries (t : Table Toml) : Dependencies :=
  t.filterMap fun (name, v) => (spec? v).map fun s => (name, s)

/-- Dependencies in a list are requirements, in a table entries. -/
def projectEntries : Toml → List (String × String)
  | .array items =>
    (items.filterMap fun item => item.str?.bind fun s => requirement? s.toList).map
      fun r => (r.name, r.spec)
  | .table entries => tomlEntries entries
  | _ => []

/-- The project's own dependencies, those of the top level, and those of Poetry without the
interpreter. -/
def ofPyproject (room : Nat) (text : List Char) : Except SurveyError Dependencies := do
  let t ← orNothing [] (Toml.read room text)
  let project := (((Toml.tableAt t "project").get? "dependencies").map projectEntries).getD []
  let top := tomlEntries (Toml.tableAt t "dependencies")
  let poetry := tomlEntries (Toml.tableAt (Toml.tableAt (Toml.tableAt t "tool") "poetry") "dependencies")
  return ((Table.ofEntries project).putAll top).putAll (Table.erase poetry "python")

def ofCargo (room : Nat) (text : List Char) : Except SurveyError Dependencies := do
  let t ← orNothing [] (Toml.read room text)
  return Table.ofEntries (tomlEntries (Toml.tableAt t "dependencies"))

/-! ## Lists of required modules -/

open Pattern

def sameLineBlanks : Pattern := plus (.oneOf " \t")

/-- A block of requirements in parentheses; its inside is captured. -/
def requireBlock : Pattern :=
  seqs [anchor .lineStart, "require", blanks, "(", blanks, anchor .lineEnd,
    capture (.repeated .any 0 none .shortest), anchor .lineStart, ")"]

/-- A requirement on a line of its own; module and version are captured. -/
def requireLine : Pattern :=
  seqs [anchor .lineStart, "require", sameLineBlanks,
    capture (seqs [(⟨fun c => !Text.isBlank c && c != '('⟩ : CharSet), star .nonBlank]),
    sameLineBlanks, capture (plus .nonBlank)]

/-- A line of a block; module and version are captured. -/
def blockLine : Pattern :=
  seqs [anchor .textStart, blanks, capture (plus .nonBlank), blanks1, capture (plus .nonBlank)]

/-- A line without the comment at its end. -/
def dropComment : List Char → List Char
  | [] => []
  | '/' :: '/' :: _ => []
  | c :: rest => c :: dropComment rest

def blockEntries (block : List Char) : List (String × String) :=
  (Text.splitLines block).filterMap fun line =>
    (blockLine.matchStart? (dropComment line)).map fun m => (m.text 0, m.text 1)

def ofGoMod (text : List Char) : Except SurveyError Dependencies :=
  let blocks := (requireBlock.findAll text).flatMap fun m => blockEntries (m.capture 0)
  let lines := (requireLine.findAll text).map fun m => (m.text 0, m.text 1)
  .ok ((Table.ofEntries blocks).putAll lines)

end RepoSurvey.Manifest
