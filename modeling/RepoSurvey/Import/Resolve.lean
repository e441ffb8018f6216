import RepoSurvey.Disk.Lookup
import RepoSurvey.SourceFile

/-!
# Resolving imports

An import names a path from the directory of the importing file. If it has the suffix of a
script it must be that file. Otherwise the suffixes of `suffixes` are added to it in turn, and
then an index file inside it is looked for.

* `Import.resolve`: the file that an import means, if there is one;
* `Import.firstThat`: the first of some paths that is a file.
-/

namespace RepoSurvey.Import

/-- The suffixes that an import may leave out. -/
def suffixes : List String := [".ts", ".tsx", ".js", ".jsx"]

/-- The first of some paths that is a file. -/
def firstThat (isFile : Path → Except SurveyError Bool) :
    List Path → Except SurveyError (Option Path)
  | [] => .ok none
  | p :: rest => do
    if ← isFile p then return some p else firstThat isFile rest

/-- The path with a suffix added to its name; the root has no name. -/
def withSuffix (p : Path) (suffix : String) : Path :=
  ⟨p.absolute, p.segments.dropLast ++ [p.name ++ suffix]⟩

/-- The path that an import literal writes, seen from a file. -/
def targetOf (importer : Path) (literal : String) : Path :=
  (importer.parent.join (Path.ofText literal)).normalize

/-- The candidates for a path without the suffix of a script. -/
def candidates (target : Path) : List Path :=
  suffixes.map (withSuffix target) ++ suffixes.map fun s => target.child ("index" ++ s)

def resolve (disk : Disk) (importer : Path) (literal : String) :
    Except SurveyError (Option Path) :=
  let target := targetOf importer literal
  if SourceFile.isScript target.name then firstThat disk.isFile [target]
  else if target.segments.isEmpty then .error .namelessTarget
  else firstThat disk.isFile (candidates target)

end RepoSurvey.Import
