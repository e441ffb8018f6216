import RepoSurvey.Graph.Digraph
import RepoSurvey.Import.Literal
import RepoSurvey.Import.Resolve

/-!
# The import graph

A graph of files with an edge for every import that leads from one of them to another.

* `Import.ofFile`: the imports of a file; a file that is unreadable or too long has none;
* `Import.targets`: the files that a file imports;
* `Import.graph`: the graph of some files.
-/

namespace RepoSurvey.Import

def ofFile (disk : Disk) (path : Path) (limit : Int) : List String :=
  match disk.readLenient? path with
  | none => []
  | some text => if text.length > limit then [] else literals text

/-- The files that a file imports, in the order of its literals. -/
def targets (disk : Disk) (limit : Int) (path : Path) : Except SurveyError (List Path) := do
  let found ← (ofFile disk path limit).mapM (resolve disk path)
  return found.filterMap id

/-- The edges between some files: each with those of its targets that are among them. -/
def edges (files : List Path) (targetLists : List (List Path)) : List (Path × Path) :=
  (files.zip targetLists).flatMap fun (source, targets) =>
    (targets.filter files.contains).map fun target => (source, target)

def graph (disk : Disk) (files : List Path) (limit : Int) :
    Except SurveyError (Digraph Path) := do
  let targetLists ← files.mapM (targets disk limit)
  return (Digraph.empty.addNodes files).addEdges (edges files targetLists)

end RepoSurvey.Import
