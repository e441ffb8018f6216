import RepoSurvey.Path

/-!
# Source files

Files are told by the suffix of their name, in exactly this spelling.
-/

namespace RepoSurvey.SourceFile

/-- The suffixes of scripts, which take part in the import graph. -/
def scriptSuffixes : List String := [".ts", ".tsx", ".js", ".jsx", ".mjs", ".cjs"]

/-- The suffixes of all files that are searched for patterns. -/
def sourceSuffixes : List String :=
  scriptSuffixes ++ [".py", ".rs", ".go", ".java", ".sql", ".xml"]

def isScript (name : String) : Bool := scriptSuffixes.contains (Name.suffix name)

def isSource (name : String) : Bool := sourceSuffixes.contains (Name.suffix name)

end RepoSurvey.SourceFile
