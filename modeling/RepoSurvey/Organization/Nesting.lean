import RepoSurvey.Path

/-!
# Nesting of directories

Depth is counted from the first segment named `src`, which counts, or else from the top.
-/

namespace RepoSurvey.Organization

def nestingOf (segments : List String) : Nat :=
  match segments.dropWhile (· != "src") with
  | [] => segments.length
  | fromSource => fromSource.length

def nestingDepth (directory : String) : Nat := nestingOf (splitSlashes directory)

end RepoSurvey.Organization
