import RepoSurvey.Number.Binary64
import RepoSurvey.Table

/-!
# JSON values

Objects keep the order of their members, and whole numbers are kept apart from the others.
-/

namespace RepoSurvey

inductive Json
  | null
  | bool (b : Bool)
  | int (n : Int)
  | float (x : Binary64)
  | str (s : String)
  | arr (items : List Json)
  | obj (members : List (String × Json))

namespace Json

instance : Inhabited Json := ⟨.null⟩

def ofNat (n : Nat) : Json := .int n

def strings (texts : List String) : Json := .arr (texts.map .str)

/-- The members of an object; nothing else has any. -/
def members : Json → Table Json
  | .obj members => members
  | _ => []

def str? : Json → Option String
  | .str s => some s
  | _ => none

def get? (j : Json) (name : String) : Option Json := Table.get? j.members name

end Json

end RepoSurvey
