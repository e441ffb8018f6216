import RepoSurvey.Disk.Basic
import RepoSurvey.Manifest.Dependencies

/-!
# Kinds of manifests

A manifest is known by its file name. `ofFileName?_fileName` says that the names tell the kinds
apart.
-/

namespace RepoSurvey

inductive Manifest
  | packageJson
  | pyproject
  | cargo
  | goMod
  deriving DecidableEq, Repr

namespace Manifest

def all : List Manifest := [.packageJson, .pyproject, .cargo, .goMod]

def fileName : Manifest → String
  | .packageJson => "package.json"
  | .pyproject => "pyproject.toml"
  | .cargo => "Cargo.toml"
  | .goMod => "go.mod"

def ofFileName? (name : String) : Option Manifest := all.find? fun m => m.fileName == name

def language : Manifest → String
  | .packageJson => "typescript"
  | .pyproject => "python"
  | .cargo => "rust"
  | .goMod => "go"

/-- The package manager, as far as the kind of manifest tells. -/
def packageManager : Manifest → String
  | .packageJson => "npm"
  | .pyproject => "pip"
  | .cargo => "cargo"
  | .goMod => "go"

/-- The dependencies that a text declares, read with some room on the stack. -/
def dependencies (stack : Stack) : Manifest → List Char → Except SurveyError Dependencies
  | .packageJson => ofPackageJson stack.dependencies
  | .pyproject => ofPyproject stack.tables
  | .cargo => ofCargo stack.tables
  | .goMod => ofGoMod

theorem ofFileName?_fileName (m : Manifest) : ofFileName? m.fileName = some m := by
  cases m <;> decide

end Manifest

end RepoSurvey
