import RepoSurvey.Number.Binary64
import RepoSurvey.Table

/-!
# TOML values

Tables keep the order in which their names first appear. `Toml.alterAt?` changes a table inside
another, making the tables on the way.
-/

namespace RepoSurvey

inductive Toml
  | str (s : String)
  | bool (b : Bool)
  | integer (n : Int)
  | real (x : Binary64)
  /-- A date, a time of day or both, as written. -/
  | moment (written : String)
  | array (items : List Toml)
  | table (entries : List (String × Toml))

namespace Toml

instance : Inhabited Toml := ⟨.table []⟩

def str? : Toml → Option String
  | .str s => some s
  | _ => none

/-- The entries of a table; nothing else has any. -/
def entries : Toml → Table Toml
  | .table entries => entries
  | _ => []

/-- The entries under a name, if a table stands there. -/
def tableAt (t : Table Toml) (name : String) : Table Toml := ((t.get? name).map entries).getD []

def isContainer : Toml → Bool
  | .array _ => true
  | .table _ => true
  | _ => false

/-- The tables before the last of an array of tables, and the last. -/
def lastTable? (items : List Toml) : Option (List Toml × Table Toml) :=
  match items.getLast? with
  | some (.table entries) => some (items.dropLast, entries)
  | _ => none

/-- Change the table at the end of a path. Tables that are missing are made; with
`throughArrays` an array of tables stands for its last table. Fails where something else is in
the way. -/
def alterAt? (throughArrays : Bool) (f : Table Toml → Option (Table Toml)) :
    List String → Table Toml → Option (Table Toml)
  | [], t => f t
  | name :: path, t =>
    match t.get? name with
    | none => (alterAt? throughArrays f path []).map fun u => t.put name (.table u)
    | some (.table u) => (alterAt? throughArrays f path u).map fun u => t.put name (.table u)
    | some (.array items) =>
      if throughArrays then do
        let (before, u) ← lastTable? items
        let u ← alterAt? throughArrays f path u
        return t.put name (.array (before ++ [.table u]))
      else none
    | some _ => none

end Toml

end RepoSurvey
