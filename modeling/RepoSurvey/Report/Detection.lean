import RepoSurvey.Number.Numeral
import RepoSurvey.Report.LineRange

/-!
# Detections

A place in a file where a rule of the catalog matches.
-/

namespace RepoSurvey

structure Detection where
  file : String
  lines : LineRange
  rule : String
  confidence : Binary64
  domain : String

namespace Detection

def fileName : FieldName := ⟨"filePath", "file_path"⟩

def linesName : FieldName := ⟨"lineRange", "line_range"⟩

def ruleName : FieldName := ⟨"patternId", "pattern_id"⟩

def confidenceName : FieldName := ⟨"confidenceScore", "confidence_score"⟩

def domainName : FieldName := .same "domain"

def check (j : Json) : Checked Detection :=
  Checked.record "Detection" (fun members =>
    mk <$> fileName.required Checked.nonEmptyText members
      <*> linesName.required LineRange.check members
      <*> ruleName.required Checked.nonEmptyText members
      <*> confidenceName.required Checked.unitReal members
      <*> domainName.required Checked.text members) j

/-- A detection from its parts, which are held to the same rules as a given one. -/
def make? (file : String) (lines : LineRange) (rule : String) (confidence : Numeral)
    (domain : String) : Checked Detection :=
  mk <$> (Checked.nonEmptyText (.str file)).under (.field fileName.plain)
    <*> .valid lines
    <*> (Checked.nonEmptyText (.str rule)).under (.field ruleName.plain)
    <*> (Checked.unitReal (.float confidence.toBinary64)).under (.field confidenceName.plain)
    <*> .valid domain

def toJson (d : Detection) : Json :=
  .obj [("filePath", .str d.file), ("lineRange", d.lines.toJson), ("patternId", .str d.rule),
    ("confidenceScore", .float d.confidence), ("domain", .str d.domain)]

end Detection

end RepoSurvey
