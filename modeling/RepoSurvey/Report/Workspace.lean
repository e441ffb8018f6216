import RepoSurvey.Validation.Checked

/-!
# Workspaces

A directory governed by a package manifest of its own. `root` is the directory, a dot for the
top of the repository.
-/

namespace RepoSurvey

structure Workspace where
  root : String
  packageManager : String
  language : String
  dependencies : Table String

namespace Workspace

def rootName : FieldName := .same "root"

def packageManagerName : FieldName := ⟨"packageManager", "package_manager"⟩

def languageName : FieldName := .same "language"

def dependenciesName : FieldName := .same "dependencies"

def check (j : Json) : Checked Workspace :=
  Checked.record "WorkspaceScan" (fun members =>
    mk <$> rootName.required Checked.text members
      <*> packageManagerName.required Checked.text members
      <*> languageName.required Checked.text members
      <*> dependenciesName.orElse [] (Checked.tableOf Checked.text) members) j

def toJson (w : Workspace) : Json :=
  .obj [("root", .str w.root), ("packageManager", .str w.packageManager),
    ("language", .str w.language),
    ("dependencies", .obj (w.dependencies.map fun (name, spec) => (name, .str spec)))]

/-- What a repository without a manifest is taken for. -/
def unknown : Workspace := ⟨".", "unknown", "unknown", []⟩

end Workspace

end RepoSurvey
