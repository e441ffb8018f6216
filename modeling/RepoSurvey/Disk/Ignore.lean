import RepoSurvey.Disk.Lookup
import RepoSurvey.Skip

/-!
# The ignore file of a repository

`Skip.ofRepository` reads the ignore file at the top of a repository; `Skip.load` adds what the
config passes over.
-/

namespace RepoSurvey.Skip

/-- The entries of the ignore file; none, if it is missing, may not be read or is not UTF-8. -/
def ofRepository (disk : Disk) (root : Path) : Except SurveyError NameSet := do
  if ← disk.isFile (root.child ignoreFile) then
    return ((disk.readStrict? (root.child ignoreFile)).map ofIgnoreText).getD []
  else return []

def load (disk : Disk) (root : Path) (extra : NameSet) : Except SurveyError NameSet := do
  return NameSet.union extra (← ofRepository disk root)

end RepoSurvey.Skip
