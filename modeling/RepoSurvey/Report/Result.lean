import RepoSurvey.Report.Detection
import RepoSurvey.Report.Workspace
import RepoSurvey.Report.Finding
import RepoSurvey.Report.DesignLayers
import RepoSurvey.Report.OrganizationStats

/-!
# The result of a survey

All that is found out about a repository. Sections that are absent are not written.
-/

namespace RepoSurvey

structure SurveyResult where
  detections : List Detection
  workspaces : List Workspace
  findings : Option (List Finding)
  layers : Option DesignLayers
  stats : Option OrganizationStats

namespace SurveyResult

def detectionsName : FieldName := .same "detections"

def workspacesName : FieldName := .same "workspaces"

def findingsName : FieldName := ⟨"structuralFindings", "structural_findings"⟩

def layersName : FieldName := ⟨"designSystemLayers", "design_system_layers"⟩

def statsName : FieldName := ⟨"codeOrganizationStats", "code_organization_stats"⟩

/-- What is known of a place that is not a directory. -/
def nothing : SurveyResult := ⟨[], [], none, none, none⟩

def check (j : Json) : Checked SurveyResult :=
  Checked.record "ScanResult" (fun members =>
    mk <$> detectionsName.orElse [] (Checked.listOf Detection.check) members
      <*> workspacesName.orElse [] (Checked.listOf Workspace.check) members
      <*> findingsName.orElse none (Checked.orNull (Checked.listOf Finding.check)) members
      <*> layersName.orElse none (Checked.orNull DesignLayers.check) members
      <*> statsName.orElse none (Checked.orNull OrganizationStats.check) members) j

def toJson (r : SurveyResult) : Json :=
  .obj ([("detections", .arr (r.detections.map Detection.toJson)),
      ("workspaces", .arr (r.workspaces.map Workspace.toJson))]
    ++ (r.findings.map fun fs => ("structuralFindings", Json.arr (fs.map Finding.toJson))).toList
    ++ (r.layers.map fun d => ("designSystemLayers", d.toJson)).toList
    ++ (r.stats.map fun s => ("codeOrganizationStats", s.toJson)).toList)

end SurveyResult

end RepoSurvey
