import RepoSurvey.Proofs.Design.Analysis

/-!
# What the findings on a design system name

A finding on a design system names workspaces, or the style config of one.

* `Design.Names`: a workspace, or its style config;
* `Design.onWorkspaces_of_mem_findings`: findings name nothing else, and are of kinds of their own;
* `Design.names_of_mem_layers`: so do the layers of the summary.
-/

namespace RepoSurvey.Design

variable {disk : Disk} {root : Path} {workspaces : List Workspace}

/-- A text names a workspace, or the style config that is found for one. -/
inductive Names (disk : Disk) (root : Path) (workspaces : List Workspace) : String → Prop
  | workspace {w : Workspace} : w ∈ workspaces → Names disk root workspaces w.root
  | styleConfig {w : Workspace} {config : String} : w ∈ workspaces →
      styleConfig? disk root w.root = .ok (some config) → Names disk root workspaces config

theorem Names.of_mem_rootsIn {layer : Layer} {s : String} (h : s ∈ rootsIn layer workspaces) :
    Names disk root workspaces s := by
  obtain ⟨w, hw, rfl⟩ := mem_rootsIn h
  exact .workspace hw

/-- The kinds of findings on a design system. -/
def findingKinds : List FindingKind :=
  [.missingLayer, .dependencyViolation, .missingSharedPreset, .hardcodedConfigValues]

/-- What a finding on a design system has: it is of one of their kinds, and names workspaces and
style configs only. -/
structure OnWorkspaces (disk : Disk) (root : Path) (workspaces : List Workspace) (f : Finding) :
    Prop where
  kind : f.kind ∈ findingKinds
  domain : f.domain = domain
  names : ∀ s ∈ f.paths, Names disk root workspaces s

theorem OnWorkspaces.kind_ne {f : Finding} (h : OnWorkspaces disk root workspaces f) :
    f.kind ≠ .circularDependency := by
  intro hkind
  have hmem := h.kind
  rw [hkind] at hmem
  exact absurd hmem (by decide)

theorem onWorkspaces_of_mem_missingLayers {f : Finding}
    (hf : f ∈ missingLayers (Layers.of workspaces)) : OnWorkspaces disk root workspaces f := by
  have hmissing : ∀ (description : String) (paths : List String) (severity : Severity),
      (∀ s ∈ paths, Names disk root workspaces s) →
      OnWorkspaces disk root workspaces (missingLayer description paths severity) :=
    fun _ _ _ hpaths => ⟨by simp [missingLayer, findingKinds], rfl, hpaths⟩
  have hboth : ∀ upper lower : Layer,
      ∀ s ∈ rootsIn upper workspaces ++ rootsIn lower workspaces, Names disk root workspaces s := by
    intro upper lower s hs
    rcases List.mem_append.mp hs with hs | hs
    · exact .of_mem_rootsIn hs
    · exact .of_mem_rootsIn hs
  simp only [missingLayers, List.mem_append, List.mem_ite_nil_right, List.mem_singleton] at hf
  rcases hf with (⟨_, rfl⟩ | ⟨_, rfl⟩) | ⟨_, rfl⟩
  · exact hmissing _ _ _ (hboth .ui .config)
  · exact hmissing _ _ _ (hboth .tokens .ui)
  · exact hmissing _ _ _ fun s hs => .of_mem_rootsIn hs

theorem sublist_namedAmong {name : String} {targets named : List String}
    (h : namedAmong disk root name targets = .ok named) : named.Sublist targets := by
  induction targets generalizing named with
  | nil =>
    cases h
    exact .slnil
  | cons target rest ih =>
    obtain ⟨found, _, h⟩ := bind_eq_ok_iff.mp h
    obtain ⟨more, hmore, h⟩ := bind_eq_ok_iff.mp h
    cases h
    split
    · exact (ih hmore).cons_cons target
    · exact (ih hmore).cons target

/-- The violations of one workspace, which is in a layer if there are any. -/
theorem violationsOf_eq_ok {l : Layers} {w : Workspace} {fs : List Finding}
    (h : violationsOf disk root l w = .ok fs) : fs = [] ∨ ∃ layer found,
      Layer.ofRoot? w.root = some layer
        ∧ w.dependencies.mapM (fun e => namedAmong disk root e.1 (forbidden l layer)) = .ok found
        ∧ fs = found.flatten.map fun target => violation w.root target layer := by
  unfold violationsOf at h
  split at h
  · cases h
    exact Or.inl rfl
  · rename_i layer hlayer
    obtain ⟨found, hfound, h⟩ := bind_eq_ok_iff.mp h
    cases h
    exact Or.inr ⟨layer, found, hlayer, hfound, rfl⟩

theorem onWorkspaces_of_mem_violations {fs : List Finding}
    (h : violations disk root (Layers.of workspaces) workspaces = .ok fs) {f : Finding}
    (hf : f ∈ fs) : OnWorkspaces disk root workspaces f := by
  obtain ⟨found, hfound, h⟩ := bind_eq_ok_iff.mp h
  cases h
  obtain ⟨w, hw, ys, hys, hf⟩ := exists_of_mem_flatten hfound hf
  rcases violationsOf_eq_ok hys with rfl | ⟨layer, named, _, hnamed, rfl⟩
  · cases hf
  · obtain ⟨target, htarget, rfl⟩ := List.mem_map.mp hf
    obtain ⟨dependency, _, among, hamong, htarget⟩ := exists_of_mem_flatten hnamed htarget
    obtain ⟨other, hother, rfl⟩ :=
      exists_root_of_mem_forbidden ((sublist_namedAmong hamong).subset htarget)
    refine ⟨by simp [violation, findingKinds], rfl, fun s hs => ?_⟩
    have hpaths : s = w.root ∨ s = other.root := by simpa [violation] using hs
    rcases hpaths with rfl | rfl
    · exact .workspace hw
    · exact .workspace hother

/-- The findings on style configs are reported of some of the workspaces, in their order. -/
theorem exists_picked_of_styleFindings {isFault : List Char → Bool}
    {report : String → String → Finding} {roots : List String} {fs : List Finding}
    (h : styleFindings disk root isFault report roots = .ok fs) :
    ∃ picked : List String, picked.Sublist roots ∧ List.Forall₂ (fun workspace f => ∃ config,
      styleConfig? disk root workspace = .ok (some config) ∧ f = report workspace config)
      picked fs := by
  induction roots generalizing fs with
  | nil =>
    cases h
    exact ⟨[], .slnil, .nil⟩
  | cons workspace rest ih =>
    obtain ⟨found, hfound, h⟩ := bind_eq_ok_iff.mp h
    obtain ⟨more, hmore, h⟩ := bind_eq_ok_iff.mp h
    obtain ⟨picked, hpicked, hall⟩ := ih hmore
    obtain ⟨config, hconfig, hfound⟩ := bind_eq_ok_iff.mp hfound
    cases found with
    | none =>
      cases h
      exact ⟨picked, hpicked.cons workspace, hall⟩
    | some found =>
      obtain ⟨path, text⟩ := found
      obtain ⟨config, rfl, hread⟩ := Option.bind_eq_some_iff.mp (Except.ok.inj hfound)
      obtain ⟨_, _, hpath⟩ := Option.map_eq_some_iff.mp hread
      cases hpath
      cases h
      by_cases hfault : isFault text = true
      · rw [if_pos hfault]
        exact ⟨workspace :: picked, hpicked.cons_cons workspace, .cons ⟨path, hconfig, rfl⟩ hall⟩
      · rw [if_neg hfault]
        exact ⟨picked, hpicked.cons workspace, hall⟩

/-- A finding on a style config is reported of a workspace in which it is found. -/
theorem exists_config_of_mem_styleFindings {isFault : List Char → Bool}
    {report : String → String → Finding} {roots : List String} {fs : List Finding}
    (h : styleFindings disk root isFault report roots = .ok fs) {f : Finding} (hf : f ∈ fs) :
    ∃ workspace ∈ roots, ∃ config, styleConfig? disk root workspace = .ok (some config)
      ∧ f = report workspace config := by
  obtain ⟨picked, hpicked, hall⟩ := exists_picked_of_styleFindings h
  obtain ⟨workspace, hworkspace, hreported⟩ := exists_of_mem_right hall hf
  exact ⟨workspace, hpicked.subset hworkspace, hreported⟩

/-- The findings of an analysis are on workspaces. -/
theorem onWorkspaces_of_mem_findings {a : Analysis} (h : analyze disk root workspaces = .ok a)
    {f : Finding} (hf : f ∈ a.findings) : OnWorkspaces disk root workspaces f := by
  obtain ⟨upward, hupward, h⟩ := bind_eq_ok_iff.mp h
  obtain ⟨presets, hpresets, h⟩ := bind_eq_ok_iff.mp h
  obtain ⟨colors, hcolors, h⟩ := bind_eq_ok_iff.mp h
  cases h
  simp only [List.mem_append] at hf
  rcases hf with ((hf | hf) | hf) | hf
  · split at hf
    · exact onWorkspaces_of_mem_missingLayers hf
    · simp at hf
  · exact onWorkspaces_of_mem_violations hupward hf
  · unfold presetFindings at hpresets
    split at hpresets
    · cases hpresets
      simp at hf
    · obtain ⟨_, hworkspace, config, hconfig, rfl⟩ := exists_config_of_mem_styleFindings hpresets hf
      obtain ⟨w, hw, rfl⟩ := mem_rootsIn hworkspace
      refine ⟨by simp [missingPreset, styleFinding, findingKinds], rfl, fun s hs => ?_⟩
      rw [List.mem_singleton.mp hs]
      exact .styleConfig hw hconfig
  · obtain ⟨_, hworkspace, config, hconfig, rfl⟩ := exists_config_of_mem_styleFindings hcolors hf
    obtain ⟨w, hw, rfl⟩ := List.mem_map.mp hworkspace
    refine ⟨by simp [hardcodedColors, styleFinding, findingKinds], rfl, fun s hs => ?_⟩
    rw [List.mem_singleton.mp hs]
    exact .styleConfig hw hconfig

/-- The directories that the summary lists are those of workspaces. -/
theorem names_of_mem_layers {a : Analysis} (h : analyze disk root workspaces = .ok a) {s : String}
    (hs : s ∈ a.layers.tokenPaths ++ a.layers.configPaths ++ a.layers.uiPaths) :
    Names disk root workspaces s := by
  obtain ⟨upward, hupward, h⟩ := bind_eq_ok_iff.mp h
  obtain ⟨presets, hpresets, h⟩ := bind_eq_ok_iff.mp h
  obtain ⟨colors, hcolors, h⟩ := bind_eq_ok_iff.mp h
  cases h
  simp only [List.mem_append] at hs
  rcases hs with (hs | hs) | hs
  · exact .of_mem_rootsIn hs
  · exact .of_mem_rootsIn hs
  · exact .of_mem_rootsIn hs

end RepoSurvey.Design
