import RepoSurvey.Validation.Checked

/-!
# Findings

An observation on the structure of a repository. Kinds and severities are closed lists.
`ofText?_text` says that the words for them are read back.
-/

namespace RepoSurvey

inductive FindingKind
  | missingLayer
  | dependencyViolation
  | missingSharedPreset
  | hardcodedConfigValues
  | godDirectory
  | mixedNamingConvention
  | deepNesting
  | barrelBloat
  | catchAllDirectory
  | circularDependency
  deriving DecidableEq, Repr

namespace FindingKind

def all : List FindingKind :=
  [.missingLayer, .dependencyViolation, .missingSharedPreset, .hardcodedConfigValues,
   .godDirectory, .mixedNamingConvention, .deepNesting, .barrelBloat, .catchAllDirectory,
   .circularDependency]

def text : FindingKind → String
  | .missingLayer => "missing-layer"
  | .dependencyViolation => "dependency-violation"
  | .missingSharedPreset => "missing-shared-preset"
  | .hardcodedConfigValues => "hardcoded-config-values"
  | .godDirectory => "god-directory"
  | .mixedNamingConvention => "mixed-naming-convention"
  | .deepNesting => "deep-nesting"
  | .barrelBloat => "barrel-bloat"
  | .catchAllDirectory => "catch-all-directory"
  | .circularDependency => "circular-dependency"

def ofText? (s : String) : Option FindingKind := all.find? fun k => k.text == s

theorem ofText?_text (k : FindingKind) : ofText? k.text = some k := by
  cases k <;> decide

end FindingKind

inductive Severity
  | critical
  | warning
  | info
  deriving DecidableEq, Repr

namespace Severity

def all : List Severity := [.critical, .warning, .info]

def text : Severity → String
  | .critical => "critical"
  | .warning => "warning"
  | .info => "info"

def ofText? (s : String) : Option Severity := all.find? fun v => v.text == s

theorem ofText?_text (v : Severity) : ofText? v.text = some v := by
  cases v <;> decide

end Severity

structure Finding where
  kind : FindingKind
  domain : String
  description : String
  paths : List String
  severity : Severity
  metadata : Option (Table Json)

namespace Finding

def kindName : FieldName := .same "type"

def domainName : FieldName := .same "domain"

def descriptionName : FieldName := .same "description"

def pathsName : FieldName := .same "paths"

def severityName : FieldName := .same "severity"

def metadataName : FieldName := .same "metadata"

def check (j : Json) : Checked Finding :=
  Checked.record "StructuralFinding" (fun members =>
    mk <$> kindName.required
        (Checked.oneOf (FindingKind.all.map FindingKind.text) FindingKind.ofText?) members
      <*> domainName.required Checked.text members
      <*> descriptionName.required Checked.text members
      <*> pathsName.orElse [] (Checked.listOf Checked.text) members
      <*> severityName.required
        (Checked.oneOf (Severity.all.map Severity.text) Severity.ofText?) members
      <*> metadataName.orElse none (Checked.orNull Checked.anyTable) members) j

def toJson (f : Finding) : Json :=
  .obj ([("type", .str f.kind.text), ("domain", .str f.domain),
      ("description", .str f.description), ("paths", .strings f.paths),
      ("severity", .str f.severity.text)]
    ++ (f.metadata.map fun t => ("metadata", Json.obj t)).toList)

end Finding

end RepoSurvey
