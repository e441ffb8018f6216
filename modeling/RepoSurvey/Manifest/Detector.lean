import RepoSurvey.Manifest.Basic
import RepoSurvey.Manifest.PackageName
import RepoSurvey.Report.Workspace

/-!
# Detecting workspaces

A detector is offered the files of a walk and collects a workspace for every manifest among
them. A manifest is looked at once, however often it is offered.

* `Detector.visit`: the detector after a file, and the workspace it gives;
* `Detector.result`: the workspaces collected, or the unknown one if there are none;
* `visit_again`: a file that was offered before gives nothing and changes nothing.
-/

namespace RepoSurvey

structure Detector where
  /-- The directories and names of the manifests looked at. -/
  visited : List (Path × String)
  workspaces : List Workspace

namespace Detector

def initial : Detector := ⟨[], []⟩

def managerOf (disk : Disk) (directory : Path) : Manifest → Except SurveyError String
  | .packageJson => Manifest.nodeManager disk directory
  | m => .ok m.packageManager

/-- The workspace of a readable manifest with this text in a directory. -/
def workspaceOf (disk : Disk) (root directory : Path) (m : Manifest) (text : List Char) :
    Except SurveyError Workspace := do
  let manager ← managerOf disk directory m
  let dependencies ← m.dependencies disk.stack text
  return {
    root := (Path.relative (directory.segments.drop root.segments.length)).text
    packageManager := manager
    language := m.language
    dependencies := dependencies }

/-- Offer a file. A manifest that fails to be read into a workspace counts as looked at. -/
def visit (disk : Disk) (root : Path) (d : Detector) (path : Path) :
    Detector × Except SurveyError (Option Workspace) :=
  match Manifest.ofFileName? path.name with
  | none => (d, .ok none)
  | some m =>
    if d.visited.contains (path.parent, path.name) then (d, .ok none)
    else
      let d := { d with visited := (path.parent, path.name) :: d.visited }
      match disk.readStrict? path with
      | none => (d, .ok none)
      | some text =>
        match workspaceOf disk root path.parent m text with
        | .error e => (d, .error e)
        | .ok w => ({ d with workspaces := d.workspaces ++ [w] }, .ok (some w))

/-- Offer files in turn, up to the first failure; what each gives is kept. -/
def visitAll (disk : Disk) (root : Path) (d : Detector) :
    List Path → Except SurveyError (Detector × List (Option Workspace))
  | [] => .ok (d, [])
  | path :: rest => do
    let (d, outcome) := d.visit disk root path
    let w ← outcome
    let (d, ws) ← visitAll disk root d rest
    return (d, w :: ws)

def result (d : Detector) : List Workspace :=
  if d.workspaces.isEmpty then [.unknown] else d.workspaces

theorem result_eq_workspaces {d : Detector} (h : d.workspaces ≠ []) : d.result = d.workspaces := by
  rw [result, if_neg (by simpa using h)]

theorem visit_again {disk : Disk} {root : Path} {d : Detector} {path : Path}
    (h : (path.parent, path.name) ∈ d.visited) : d.visit disk root path = (d, .ok none) := by
  unfold visit
  cases Manifest.ofFileName? path.name with
  | none => rfl
  | some m => simp [h]

end Detector

end RepoSurvey
