import RepoSurvey.Disk.Lookup
import RepoSurvey.Skip
import RepoSurvey.Table

/-!
# Walking a tree

A walk visits the directories and files below a directory in ascending order of names, a
directory before what is in it. Directories that are passed over are not entered, and one that
cannot be listed is taken for empty. A link to a file counts as a file; other links are left out.

The walk keeps the directories that it has entered, the innermost first, each with the entries
that are still to be looked at.

* `Walk.listing`: what listing a directory gives;
* `Walk.step`: one step, which looks at an entry or leaves a directory;
* `Walk.remaining`: the number of steps that are left at most;
* `Walk.entries`: the entries visited below a path.
-/

namespace RepoSurvey

/-- Something visited, by its path from the start of the walk. -/
structure WalkEntry where
  path : List String
  isDirectory : Bool
  deriving DecidableEq, Repr

namespace WalkEntry

def name (e : WalkEntry) : String := e.path.getLastD ""

def text (e : WalkEntry) : String := Path.joined e.path

def depth (e : WalkEntry) : Nat := e.path.length

end WalkEntry

namespace FileTree

mutual

/-- The steps that a walk takes in a tree if nothing is passed over: one for each thing, and one to
leave each directory. -/
def steps : FileTree → Nat
  | .file _ => 1
  | .link _ => 1
  | .directory entries => stepsInside entries + 2

def stepsInside : List (String × FileTree) → Nat
  | [] => 0
  | (_, tree) :: rest => steps tree + stepsInside rest

end

end FileTree

namespace Walk

/-- What listing a directory with some entries gives. -/
def listing (disk : Disk) (directory : Path) (entries : List (String × FileTree)) :
    List (String × FileTree) :=
  if disk.lists directory then Table.sorted entries else []

/-- A directory that has been entered: its path from the start of the walk, and the entries still
to be looked at. -/
structure Frame where
  path : List String
  pending : List (String × FileTree)

/-- Is the directory at a path from the start passed over? -/
def isPruned (skip : NameSet) (path : List String) : Bool :=
  Skip.prunes skip (path.getLastD "") (some (Path.joined path))

/-- Look at a thing at `path` from the start of the walk: what is visited, and the directory that is
entered. -/
def look (disk : Disk) (root : Path) (skip : NameSet) (path : List String) :
    FileTree → Option WalkEntry × Option Frame
  | .file _ => (some ⟨path, false⟩, none)
  | .link _ => (if (disk.lookup (root.below path)).isFile then some ⟨path, false⟩ else none, none)
  | .directory entries =>
    if isPruned skip path then (none, none)
    else (some ⟨path, true⟩, some ⟨path, listing disk (root.below path) entries⟩)

/-- Look at the next entry of the innermost directory, or leave it if there is none. -/
def step (disk : Disk) (root : Path) (skip : NameSet) :
    List Frame → Option WalkEntry × List Frame
  | [] => (none, [])
  | ⟨_, []⟩ :: outer => (none, outer)
  | ⟨path, (name, tree) :: pending⟩ :: outer =>
    let (found, entered) := look disk root skip (path ++ [name]) tree
    (found, entered.toList ++ ⟨path, pending⟩ :: outer)

/-- The most steps that are left: those in what is still to be looked at, and one to leave each
directory. -/
def remaining (stack : List Frame) : Nat :=
  (stack.map fun f => FileTree.stepsInside f.pending + 1).foldr (· + ·) 0

/-- What is visited in at most `count` steps, up to the end of the walk. -/
def run (disk : Disk) (root : Path) (skip : NameSet) : Nat → List Frame → List WalkEntry
  | 0, _ => []
  | count + 1, stack =>
    if stack.isEmpty then []
    else
      let (found, stack) := step disk root skip stack
      found.toList ++ run disk root skip count stack

/-- What is visited below a path; nothing, if it does not lead to a directory. -/
def entries (disk : Disk) (root : Path) (skip : NameSet) : List WalkEntry :=
  match (disk.directory? root).bind disk.tree.at? with
  | some (.directory entries) =>
    let stack := [⟨[], listing disk root entries⟩]
    run disk root skip (remaining stack) stack
  | _ => []

/-- The files visited. -/
def files (disk : Disk) (root : Path) (skip : NameSet) : List WalkEntry :=
  (entries disk root skip).filter (!·.isDirectory)

end Walk

end RepoSurvey
