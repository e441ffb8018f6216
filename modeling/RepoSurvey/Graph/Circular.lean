import RepoSurvey.Error
import RepoSurvey.Report.Finding

/-!
# Findings on cycles

A cycle with more than three members is critical.
-/

namespace RepoSurvey.Circular

def criticalLength : Nat := 3

def severity {ν : Type} (cycle : List ν) : Severity :=
  if cycle.length > criticalLength then .critical else .warning

/-- The members of a cycle and the first again, with arrows between them. -/
def chain (first : String) (cycle : List String) : String :=
  " → ".intercalate (cycle ++ [first])

def finding (cycle : List String) : Except SurveyError Finding :=
  match cycle with
  | [] => .error .emptyCycle
  | first :: _ =>
    .ok {
      kind := .circularDependency
      domain := "code-organization"
      description := "Circular dependency detected: " ++ chain first cycle
      paths := cycle
      severity := severity cycle
      metadata := some [("cycleLength", .ofNat cycle.length)] }

def findings (cycles : List (List String)) : Except SurveyError (List Finding) :=
  cycles.mapM finding

end RepoSurvey.Circular
