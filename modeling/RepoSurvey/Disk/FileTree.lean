/-!
# Trees of files

A tree is a file with its bytes, a symbolic link with its target, or a directory with its
entries, in any order.

* `FileTree.at?` goes down a tree, without following links;
* `FileTree.put` and `FileTree.remove` change a tree;
* `FileTree.Distinct`: no directory of the tree has two entries of one name.
-/

namespace RepoSurvey

inductive FileTree
  | file (bytes : List UInt8)
  | link (target : String)
  | directory (entries : List (String × FileTree))

namespace FileTree

instance : Inhabited FileTree := ⟨.directory []⟩

/-- The entries of a directory; nothing else has any. -/
def entries : FileTree → List (String × FileTree)
  | .directory entries => entries
  | _ => []

def isDirectory : FileTree → Bool
  | .directory _ => true
  | _ => false

def isFile : FileTree → Bool
  | .file _ => true
  | _ => false

def find? (name : String) : List (String × FileTree) → Option FileTree
  | [] => none
  | (n, t) :: rest => if n = name then some t else find? name rest

/-- The part of a tree at the end of a path. -/
def at? (t : FileTree) : List String → Option FileTree
  | [] => some t
  | name :: path => (find? name t.entries).bind fun u => u.at? path

/-- The entries with one added at the end or replaced. -/
def insertEntry (name : String) (t : FileTree) :
    List (String × FileTree) → List (String × FileTree)
  | [] => [(name, t)]
  | (n, u) :: rest => if name = n then (n, t) :: rest else (n, u) :: insertEntry name t rest

/-- Put a tree at the end of a path, making the directories on the way. -/
def put (t : FileTree) (new : FileTree) : List String → FileTree
  | [] => new
  | name :: path =>
    let old := (find? name t.entries).getD (.directory [])
    .directory (insertEntry name (old.put new path) t.entries)

/-- Make a directory at the end of a path, unless there is one. -/
def putDirectory (t : FileTree) (path : List String) : FileTree :=
  match t.at? path with
  | some (.directory _) => t
  | _ => t.put (.directory []) path

/-- Remove what stands at the end of a path, with everything in it. -/
def remove (t : FileTree) : List String → FileTree
  | [] => t
  | [name] => .directory (t.entries.filter (·.1 != name))
  | name :: path =>
    match find? name t.entries with
    | some u => .directory (insertEntry name (u.remove path) t.entries)
    | none => t

/-- No directory of the tree has two entries of one name. -/
inductive Distinct : FileTree → Prop
  | file (bytes : List UInt8) : Distinct (.file bytes)
  | link (target : String) : Distinct (.link target)
  | directory (entries : List (String × FileTree)) :
      (entries.map (·.1)).Nodup → (∀ e ∈ entries, Distinct e.2) → Distinct (.directory entries)

end FileTree

end RepoSurvey
