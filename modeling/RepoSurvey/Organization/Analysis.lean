import RepoSurvey.Disk.Ignore
import RepoSurvey.Graph.CycleSearch
import RepoSurvey.Graph.Circular
import RepoSurvey.Import.Graph
import RepoSurvey.Organization.Checks
import RepoSurvey.Report.OrganizationStats

/-!
# Analysis of the organization of the code

* `Organization.cycles`: the circular imports of a repository;
* `Organization.analyze`: the findings of all checks, and the figures.
-/

namespace RepoSurvey.Organization

/-- The path of a file from the top, written out, for a path below the top. -/
def relativeText (root : Path) (path : Path) : String :=
  (Path.relative (path.segments.drop root.segments.length)).text

/-- The graph with other names for its nodes. -/
def relabel {ν μ : Type} [DecidableEq ν] [DecidableEq μ] (f : ν → μ) (g : Digraph ν) :
    Digraph μ :=
  (Digraph.empty.addNodes (g.nodes.map f)).addEdges (g.edges.map fun (u, v) => (f u, f v))

/-- The circular imports, each as the paths of its files from the top. -/
def cycles (disk : Disk) (root : Path) (i : Inventory) (limit : Int) :
    Except SurveyError (List (List String)) := do
  let g ← Import.graph disk (i.files.map root.below) limit
  return (relabel (relativeText root) g).cycles id none

/-- The texts of the scripts that can be read and have at most `limit` characters. -/
def contents (disk : Disk) (root : Path) (i : Inventory) (limit : Int) : Contents :=
  i.files.filterMap fun path =>
    match disk.readLenient? (root.below path) with
    | none => none
    | some text => if text.length ≤ limit then some (path, text) else none

structure Analysis where
  findings : List Finding
  stats : OrganizationStats

/-- The findings of the checks that need no graph. -/
def checkAll (c : Config) (i : Inventory) (texts : Contents) : List Finding :=
  godDirectories i c.godDirectory ++ mixedNamings i c.namingFiles c.namingBucket
    ++ deepNestings i c.nestingDepth ++ barrelBloats texts c.barrelBloat
    ++ catchAlls i c.catchAll ++ mixedExports texts c.namedExports

def statsOf (i : Inventory) (circular : Nat) : OrganizationStats where
  sourceFiles := i.files.length
  directoryDepth := i.depth
  conventions := i.conventions.map fun (name, n) => (name, n)
  circularDependencies := circular

def analyze (disk : Disk) (root : Path) (c : Config) (skip : NameSet) :
    Except SurveyError Analysis := do
  let i := Inventory.collect disk root (NameSet.union skip c.skipDirs)
  let limit : Nat := c.fileSize
  let findings := checkAll c i (contents disk root i limit)
  let found ← cycles disk root i limit
  let circular ← Circular.findings found
  return ⟨findings ++ circular, statsOf i found.length⟩

end RepoSurvey.Organization
