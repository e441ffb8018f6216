import RepoSurvey.Catalog.Detect
import RepoSurvey.Design.Analysis
import RepoSurvey.Disk.Resolve
import RepoSurvey.Manifest.Detector
import RepoSurvey.Organization.Analysis
import RepoSurvey.Report.Result

/-!
# A survey of a repository

One walk collects the workspaces and the source files. The files are searched for the patterns of
the catalog, and the structure of the repository is analyzed.

* `Survey.batches`: a list cut into pieces of a size;
* `Survey.run`: the survey of a directory;
* `flatten_batches`: the pieces make up the list.
-/

namespace RepoSurvey.Survey

/-- A list cut into pieces of `size`, of which the last may be shorter. Every piece takes an
item, so `fuel` need not exceed the length of the list. -/
def batchesFrom {α : Type} (size : Nat) : Nat → List α → List (List α)
  | 0, _ => []
  | _ + 1, [] => []
  | fuel + 1, a :: rest =>
    (a :: rest).take size :: batchesFrom size fuel ((a :: rest).drop size)

def batches {α : Type} (size : Positive) (items : List α) : List (List α) :=
  batchesFrom size items.length items

theorem flatten_batchesFrom {α : Type} (size : Positive) (fuel : Nat) (items : List α)
    (h : items.length ≤ fuel) : (batchesFrom size.1 fuel items).flatten = items := by
  induction fuel generalizing items with
  | zero =>
    have : items = [] := List.length_eq_zero_iff.mp (by omega)
    simp [batchesFrom, this]
  | succ fuel ih =>
    cases items with
    | nil => simp [batchesFrom]
    | cons a rest =>
      have positive := size.2
      rw [batchesFrom, List.flatten_cons, ih, List.take_append_drop]
      simp only [List.length_drop, List.length_cons] at h ⊢
      omega

theorem flatten_batches {α : Type} (size : Positive) (items : List α) :
    (batches size items).flatten = items :=
  flatten_batchesFrom size items.length items (Nat.le_refl _)

/-- The files of a walk, by their places on the disk. -/
def filePlaces (root : Path) (entries : List WalkEntry) : List Path :=
  (entries.filter (!·.isDirectory)).map fun e => root.below e.path

/-- The detections of one file; a file that cannot be read has none. -/
def detectFile (disk : Disk) (rules : List Rule) (place : Path) (file : String)
    (radius limit : Int) : Except (List Failure) (List Detection) :=
  match disk.readLenient? place with
  | none => .ok []
  | some text => Catalog.detect rules file text radius limit

def detectBatch (disk : Disk) (root : Path) (c : Config) (batch : List WalkEntry) :
    Except (List Failure) (List Detection) := do
  let found ← batch.mapM fun e =>
    detectFile disk Catalog.rules (root.below e.path) e.text c.contextRadius
      (c.fileSize : Nat)
  return found.flatten

/-- The detections of some files, batch by batch. -/
def detectAll (disk : Disk) (root : Path) (c : Config) (files : List WalkEntry) :
    Except SurveyError (List Detection) := do
  let found ← ((batches c.batchSize files).mapM (detectBatch disk root c)).mapError .invalid
  return found.flatten

/-- The design system is analyzed only where there are several workspaces. -/
def designOf (disk : Disk) (root : Path) (workspaces : List Workspace) :
    Except SurveyError (Option Design.Analysis) :=
  if workspaces.length > 1 then (Design.analyze disk root workspaces).map some else .ok none

/-- The findings are absent if there are none and the design system was not analyzed. -/
def findingsSection (design : Option Design.Analysis) (findings : List Finding) :
    Option (List Finding) :=
  if findings.isEmpty && design.isNone then none else some findings

/-- The survey of an existing directory. -/
def ofDirectory (disk : Disk) (root : Path) (c : Config) : Except SurveyError SurveyResult := do
  let skip ← Skip.load disk root c.skipDirs
  let entries := Walk.entries disk root skip
  let (detector, _) ← Detector.initial.visitAll disk root (filePlaces root entries)
  let workspaces := detector.result
  let sources := entries.filter fun e => !e.isDirectory && SourceFile.isSource e.name
  let detections ← detectAll disk root c sources
  let design ← designOf disk root workspaces
  let organization ← Organization.analyze disk root c skip
  let findings := (design.map Design.Analysis.findings).getD [] ++ organization.findings
  return {
    detections := detections
    workspaces := workspaces
    findings := findingsSection design findings
    layers := design.map Design.Analysis.layers
    stats := some organization.stats }

/-- The survey of what a path leads to; anything but a directory gives an empty result. -/
def run (disk : Disk) (path : Path) (c : Config) : Except SurveyError SurveyResult := do
  match ← disk.destination path with
  | .directory place => ofDirectory disk ⟨true, place⟩ c
  | found =>
    match found.error? with
    | some e => .error e
    | none => return .nothing

end RepoSurvey.Survey
