import RepoSurvey.Validation.Checked

/-!
# Summary of the design system

Which layers of a design system a repository has, and where.
-/

namespace RepoSurvey

structure DesignLayers where
  hasTokens : Bool
  hasConfig : Bool
  hasUi : Bool
  hasDocs : Bool
  tokenPaths : List String
  configPaths : List String
  uiPaths : List String
  deriving DecidableEq, Repr

namespace DesignLayers

def hasTokensName : FieldName := ⟨"hasTokens", "has_tokens"⟩

def hasConfigName : FieldName := ⟨"hasConfig", "has_config"⟩

def hasUiName : FieldName := ⟨"hasUI", "has_ui"⟩

def hasDocsName : FieldName := ⟨"hasDocs", "has_docs"⟩

def tokenPathsName : FieldName := ⟨"tokenPaths", "token_paths"⟩

def configPathsName : FieldName := ⟨"configPaths", "config_paths"⟩

def uiPathsName : FieldName := ⟨"uiPaths", "ui_paths"⟩

def check (j : Json) : Checked DesignLayers :=
  Checked.record "DesignSystemLayers" (fun members =>
    mk <$> hasTokensName.orElse false Checked.boolean members
      <*> hasConfigName.orElse false Checked.boolean members
      <*> hasUiName.orElse false Checked.boolean members
      <*> hasDocsName.orElse false Checked.boolean members
      <*> tokenPathsName.orElse [] (Checked.listOf Checked.text) members
      <*> configPathsName.orElse [] (Checked.listOf Checked.text) members
      <*> uiPathsName.orElse [] (Checked.listOf Checked.text) members) j

def toJson (d : DesignLayers) : Json :=
  .obj [("hasTokens", .bool d.hasTokens), ("hasConfig", .bool d.hasConfig),
    ("hasUI", .bool d.hasUi), ("hasDocs", .bool d.hasDocs),
    ("tokenPaths", .strings d.tokenPaths), ("configPaths", .strings d.configPaths),
    ("uiPaths", .strings d.uiPaths)]

end DesignLayers

end RepoSurvey
