import RepoSurvey.NameSet
import RepoSurvey.Text.Blank
import RepoSurvey.Text.Lines

/-!
# Directories that are passed over

Some directory names are always passed over. Further ones are given by name or, with a slash in
them, by their path from the top.

* `Skip.prunes`: is a directory passed over?
* `Skip.ofIgnoreText`: the names and paths that the lines of an ignore file give.
-/

namespace RepoSurvey.Skip

/-- Dependencies, version control, build output, caches and coverage reports. -/
def always : NameSet :=
  NameSet.ofList ["node_modules", "vendor", ".git", "dist", "build", ".next", "target", ".turbo",
    "__pycache__", ".venv", "venv", "coverage"]

def isAlways (name : String) : Bool := always.contains name

/-- Is a directory with this name and, if it is known, this path passed over? -/
def prunes (extra : NameSet) (name : String) (path : Option String) : Bool :=
  isAlways name || extra.contains name || (path.map extra.contains).getD false

/-- The name of the file at the top of a repository that lists directories to pass over. -/
def ignoreFile : String := ".wheelscanignore"

/-- The entry of a line. Lines that start with a number sign are comments, and exceptions, which
start with an exclamation mark, are not supported. -/
def entry? (line : List Char) : Option String :=
  match Text.trim line with
  | [] => none
  | '#' :: _ => none
  | '!' :: _ => none
  | trimmed =>
    let name := Text.trimChar '/' trimmed
    if name.isEmpty then none else some (String.ofList name)

def ofIgnoreText (text : List Char) : NameSet :=
  NameSet.ofList ((Text.splitLines text).filterMap entry?)

end RepoSurvey.Skip
