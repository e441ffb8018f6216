import RepoSurvey.Design.Analysis
import RepoSurvey.Proofs.Manifest.Detector

/-!
# Where the analysis of a design system fails

* `Design.exists_violations_ok_iff`: dependencies are judged wherever the package names that are
  asked for can be read;
* `Design.exists_styleFindings_ok_iff`: style configs are judged wherever they can be looked for;
* `Design.exists_analyze_ok_iff`: the analysis as a whole.
-/

namespace RepoSurvey.Design

variable {disk : Disk} {root : Path} {workspaces : List Workspace}

theorem mem_rootsIn {layer : Layer} {target : String} (h : target ∈ rootsIn layer workspaces) :
    ∃ w ∈ workspaces, w.root = target := by
  obtain ⟨w, hw, rfl⟩ := List.mem_map.mp h
  exact ⟨w, List.mem_of_mem_filter hw, rfl⟩

theorem exists_root_of_mem_forbidden {layer : Layer} {target : String}
    (h : target ∈ forbidden (Layers.of workspaces) layer) : ∃ w ∈ workspaces, w.root = target := by
  cases layer with
  | tokens =>
    rcases List.mem_append.mp h with h | h
    · exact mem_rootsIn h
    · exact mem_rootsIn h
  | config => exact mem_rootsIn h
  | ui => exact mem_rootsIn h
  | app => simp [forbidden] at h

/-! ## Dependencies -/

theorem exists_namedAmong_ok_iff {name : String} {targets : List String} :
    (∃ named, namedAmong disk root name targets = .ok named)
      ↔ ∀ t ∈ targets, Manifest.NameReadable disk (placeOf root t) := by
  induction targets with
  | nil => exact iff_of_true ⟨[], rfl⟩ (by simp)
  | cons target rest ih =>
    rw [List.forall_mem_cons, ← ih, ← Manifest.exists_packageName?_ok_iff, namedAmong,
      exists_bind_ok_iff]
    constructor
    · rintro ⟨found, hfound, h⟩
      obtain ⟨more, hmore, _⟩ := exists_bind_ok_iff.mp h
      exact ⟨⟨found, hfound⟩, more, hmore⟩
    · rintro ⟨⟨found, hfound⟩, more, hmore⟩
      exact ⟨found, hfound, exists_bind_ok_iff.mpr ⟨more, hmore, _, rfl⟩⟩

/-- The package names that are asked for can be read: those of the workspaces that a workspace with
dependencies may not depend on. -/
def NamesSettle (disk : Disk) (root : Path) (workspaces : List Workspace) : Prop :=
  ∀ w ∈ workspaces, w.dependencies ≠ [] → ∀ layer, Layer.ofRoot? w.root = some layer →
    ∀ target ∈ forbidden (Layers.of workspaces) layer,
      Manifest.NameReadable disk (placeOf root target)

theorem exists_violationsOf_ok_iff {l : Layers} {w : Workspace} :
    (∃ fs, violationsOf disk root l w = .ok fs)
      ↔ (w.dependencies ≠ [] → ∀ layer, Layer.ofRoot? w.root = some layer →
        ∀ target ∈ forbidden l layer, Manifest.NameReadable disk (placeOf root target)) := by
  unfold violationsOf
  cases Layer.ofRoot? w.root with
  | none => exact iff_of_true ⟨[], rfl⟩ fun _ _ h => (by cases h)
  | some layer =>
    rw [exists_bind_pure_ok_iff, exists_mapM_ok_iff]
    simp only [exists_namedAmong_ok_iff, Option.some.injEq, forall_eq']
    exact ⟨fun h hne => h _ (List.head_mem hne), fun h e he => h (List.ne_nil_of_mem he)⟩

theorem exists_violations_ok_iff :
    (∃ fs, violations disk root (Layers.of workspaces) workspaces = .ok fs)
      ↔ NamesSettle disk root workspaces := by
  rw [violations, exists_bind_pure_ok_iff, exists_mapM_ok_iff]
  exact forall₂_congr fun w _ => exists_violationsOf_ok_iff

/-! ## Style configs -/

/-- The style config of a workspace can be looked for. -/
def StyleSettles (disk : Disk) (root : Path) (workspace : String) : Prop :=
  disk.Settles (styleConfigNames.map (placeOf root workspace).child)

theorem exists_styleConfigText?_ok_iff {workspace : String} :
    (∃ config, styleConfigText? disk root workspace = .ok config)
      ↔ StyleSettles disk root workspace :=
  exists_bind_pure_ok_iff.trans (exists_bind_pure_ok_iff.trans Disk.exists_firstFile?_ok_iff)

theorem exists_styleFindings_ok_iff {isFault : List Char → Bool}
    {report : String → String → Finding} {roots : List String} :
    (∃ fs, styleFindings disk root isFault report roots = .ok fs)
      ↔ ∀ workspace ∈ roots, StyleSettles disk root workspace := by
  induction roots with
  | nil => simp [styleFindings]
  | cons workspace rest ih =>
    rw [List.forall_mem_cons, ← ih, ← exists_styleConfigText?_ok_iff, styleFindings,
      exists_bind_ok_iff]
    constructor
    · rintro ⟨config, hconfig, h⟩
      obtain ⟨more, hmore, _⟩ := exists_bind_ok_iff.mp h
      exact ⟨⟨config, hconfig⟩, more, hmore⟩
    · rintro ⟨⟨config, hconfig⟩, more, hmore⟩
      refine ⟨config, hconfig, exists_bind_ok_iff.mpr ⟨more, hmore, ?_⟩⟩
      cases config with
      | none => exact ⟨_, rfl⟩
      | some found => exact ⟨_, rfl⟩

/-! ## All together -/

/-- The analysis fails only if a package name that is asked for cannot be read or the style config
of a workspace cannot be looked for. -/
theorem exists_analyze_ok_iff : (∃ a, analyze disk root workspaces = .ok a)
    ↔ NamesSettle disk root workspaces ∧ ∀ w ∈ workspaces, StyleSettles disk root w.root := by
  have hcolors : (∃ fs, colorFindings disk root workspaces = .ok fs)
      ↔ ∀ w ∈ workspaces, StyleSettles disk root w.root :=
    exists_styleFindings_ok_iff.trans List.forall_mem_map
  rw [← hcolors, ← exists_violations_ok_iff]
  constructor
  · rintro ⟨a, h⟩
    obtain ⟨upward, hupward, h⟩ := bind_eq_ok_iff.mp h
    obtain ⟨_, _, h⟩ := bind_eq_ok_iff.mp h
    obtain ⟨colors, hok, _⟩ := bind_eq_ok_iff.mp h
    exact ⟨⟨upward, hupward⟩, colors, hok⟩
  · rintro ⟨⟨upward, hupward⟩, colors, hok⟩
    have hpresets : ∃ fs, presetFindings disk root (Layers.of workspaces) = .ok fs := by
      unfold presetFindings
      split
      · exact ⟨[], rfl⟩
      · refine exists_styleFindings_ok_iff.mpr fun workspace hworkspace => ?_
        obtain ⟨w, hw, rfl⟩ := mem_rootsIn hworkspace
        exact hcolors.mp ⟨colors, hok⟩ w hw
    obtain ⟨presets, hpresets⟩ := hpresets
    exact ⟨_, bind_eq_ok_iff.mpr ⟨upward, hupward, bind_eq_ok_iff.mpr ⟨presets, hpresets,
      bind_eq_ok_iff.mpr ⟨colors, hok, rfl⟩⟩⟩⟩

end RepoSurvey.Design
