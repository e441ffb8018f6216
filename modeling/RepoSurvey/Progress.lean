import RepoSurvey.Json.Printer
import RepoSurvey.Text.Quoted

/-!
# Messages on the progress of work

* `Progress.operationLog`: what is logged about an operation with a start and an end;
* `Progress.summary`: the line that stands for a progress display that is off;
* `Progress.shown`: a value as it is shown in a message.
-/

namespace RepoSurvey.Progress

inductive Level
  | info
  | error
  deriving DecidableEq, Repr

def Level.text : Level → String
  | .info => "INFO"
  | .error => "ERROR"

structure Message where
  level : Level
  text : String
  deriving DecidableEq, Repr

mutual

/-- A value as it is shown inside another one. -/
def literal : Json → List Char
  | .null => "None".toList
  | .bool b => (if b then "True" else "False").toList
  | .int n => Json.intText n
  | .float x => x.text
  | .str s => Text.quoted s.toList
  | .arr [] => ['[', ']']
  | .arr (item :: items) => '[' :: (literal item ++ literalItems items ++ [']'])
  | .obj [] => ['\x7b', '\x7d']
  | .obj ((name, value) :: members) =>
    '\x7b' :: (Text.quoted name.toList ++ [':', ' '] ++ literal value ++ literalMembers members
      ++ ['\x7d'])

def literalItems : List Json → List Char
  | [] => []
  | item :: items => ',' :: ' ' :: (literal item ++ literalItems items)

def literalMembers : List (String × Json) → List Char
  | [] => []
  | (name, value) :: members =>
    ',' :: ' ' :: (Text.quoted name.toList ++ [':', ' '] ++ literal value
      ++ literalMembers members)

end

/-- A value as it is shown in a message; a text stands for itself. -/
def shown : Json → String
  | .str s => s
  | j => String.ofList (literal j)

def detailText (details : Table Json) : String :=
  String.join (details.map fun (name, value) => " " ++ name ++ "=" ++ shown value)

/-- The messages on an operation that took the time `elapsed` and failed with `failure`, or did
not fail. -/
def operationLog (operation : String) (details : Table Json) (failure : Option String)
    (elapsed : String) : List Message :=
  let start : Message := ⟨.info, "▶ Starting " ++ operation ++ detailText details⟩
  let stop : Message :=
    match failure with
    | some reason => ⟨.error, "✗ " ++ operation ++ " failed after " ++ elapsed ++ "s: " ++ reason⟩
    | none => ⟨.info, "✓ Completed " ++ operation ++ " in " ++ elapsed ++ "s"⟩
  [start, stop]

/-- A line for work on more than a hundred items, when no progress is displayed. -/
def summary (description : Option String) (total : Option Int) (unit : String) (disabled : Bool) :
    List Message :=
  match total with
  | some n =>
    if !disabled && n > 100 then
      let name := (description.filter (!·.isEmpty)).getD "Progress"
      [⟨.info, "  " ++ name ++ ": processing " ++ toString n ++ " " ++ unit ++ "..."⟩]
    else []
  | none => []

end RepoSurvey.Progress
