import RepoSurvey.Disk.Lookup
import RepoSurvey.Manifest.Dependencies

/-!
# Facts about a package in its directory

* `Manifest.nodeManager`: the package manager that a lockfile gives away;
* `Manifest.packageName?`: the name that a package gives itself.
-/

namespace RepoSurvey.Manifest

/-- Lockfiles and the managers they belong to; the first that is present decides. -/
def lockfiles : Table String :=
  [("pnpm-lock.yaml", "pnpm"), ("yarn.lock", "yarn"), ("bun.lockb", "bun"), ("bun.lock", "bun"),
   ("package-lock.json", "npm")]

def defaultManager : String := "npm"

def nodeManager (disk : Disk) (directory : Path) : Except SurveyError String := do
  let found ← disk.firstFile? directory lockfiles.names
  return (found.bind lockfiles.get?).getD defaultManager

/-- The name in the manifest of a directory, if it can be read and gives a text for a name. -/
def packageName? (disk : Disk) (directory : Path) : Except SurveyError (Option String) :=
  match disk.readStrict? (directory.child "package.json") with
  | none => .ok none
  | some text => do
    let manifest ← orNothing .null (Json.read disk.stack.name text)
    return (manifest.get? "name").bind Json.str?

end RepoSurvey.Manifest
