import RepoSurvey.Disk.Walk
import RepoSurvey.Organization.Naming
import RepoSurvey.SourceFile
import RepoSurvey.Table

/-!
# The inventory of a repository

What one walk finds: the scripts, grouped by directory and counted by naming convention, and the
directories.

* `Inventory.collect`: the inventory of a repository;
* `Inventory.add`: the inventory with one more entry of a walk.
-/

namespace RepoSurvey

structure Inventory where
  /-- The names of the scripts in each directory; the top is written as a dot. -/
  filesByDirectory : Table (List String)
  /-- The scripts by their paths from the top, in the order of the walk. -/
  files : List (List String)
  directories : List (List String)
  /-- The most segments of a directory. -/
  depth : Nat
  conventions : Table Nat

namespace Inventory

def empty : Inventory := ⟨[], [], [], 0, []⟩

/-- The directory of a file, by its path from the top. -/
def directoryText (path : List String) : String := (Path.relative path.dropLast).text

def countConvention (name : String) (counts : Table Nat) : Table Nat :=
  match Convention.ofFileName? name with
  | none => counts
  | some c => counts.adjust c.text 0 (· + 1)

def addDirectory (i : Inventory) (e : WalkEntry) : Inventory :=
  { i with directories := i.directories ++ [e.path], depth := max i.depth e.depth }

def addFile (i : Inventory) (e : WalkEntry) : Inventory :=
  { i with
    files := i.files ++ [e.path]
    conventions := countConvention e.name i.conventions
    filesByDirectory :=
      i.filesByDirectory.adjust (directoryText e.path) [] fun names => names ++ [e.name] }

def add (i : Inventory) (e : WalkEntry) : Inventory :=
  if e.isDirectory then i.addDirectory e
  else if SourceFile.isScript e.name then i.addFile e
  else i

def ofEntries (entries : List WalkEntry) : Inventory := entries.foldl add empty

def collect (disk : Disk) (root : Path) (skip : NameSet) : Inventory :=
  ofEntries (Walk.entries disk root skip)

end Inventory

end RepoSurvey
