import Mathlib.Data.List.Duplicate
import RepoSurvey.Proofs.Design.Findings
import RepoSurvey.Proofs.Organization.Distinct

/-!
# What is reported twice on a design system

The checks on a design system go through the workspaces, of which there may be several in one
directory. Only then can a directory be listed twice in a layer, or two findings be alike.

* `Design.duplicate_rootsIn_iff`: directories that a layer lists more than once;
* `Design.Repeated`: a finding is on a directory with several workspaces;
* `Design.pairwise_findings`: findings that are alike are one finding of this sort.
-/

namespace RepoSurvey.Design

variable {disk : Disk} {root : Path} {workspaces : List Workspace} {s : String}

/-! ## Layers -/

theorem rootsIn_eq (layer : Layer) (workspaces : List Workspace) :
    rootsIn layer workspaces
      = (workspaces.map Workspace.root).filter fun s => Layer.ofRoot? s = some layer := by
  rw [rootsIn, List.filter_map]
  rfl

theorem count_rootsIn (layer : Layer) (workspaces : List Workspace) (s : String) :
    (rootsIn layer workspaces).count s
      = if Layer.ofRoot? s = some layer then (workspaces.map Workspace.root).count s else 0 := by
  rw [rootsIn_eq]
  split
  · rename_i hlayer
    exact List.count_filter (by simpa using hlayer)
  · rename_i hlayer
    refine List.count_eq_zero.mpr fun hmem => hlayer ?_
    simpa using (List.mem_filter.mp hmem).2

/-- A layer lists a directory more than once exactly if several of its workspaces are there. -/
theorem duplicate_rootsIn_iff {layer : Layer} :
    List.Duplicate s (rootsIn layer workspaces)
      ↔ Layer.ofRoot? s = some layer ∧ List.Duplicate s (workspaces.map Workspace.root) := by
  rw [List.duplicate_iff_two_le_count, List.duplicate_iff_two_le_count, count_rootsIn]
  split
  · rename_i hlayer
    exact (and_iff_right hlayer).symm
  · rename_i hlayer
    exact iff_of_false (by omega) fun h => hlayer h.1

/-- Layers have no directory in common. -/
theorem duplicate_of_forbidden {layer : Layer}
    (h : List.Duplicate s (forbidden (Layers.of workspaces) layer)) :
    List.Duplicate s (workspaces.map Workspace.root) := by
  cases layer with
  | tokens =>
    have hcount : 2 ≤ (rootsIn .config workspaces ++ rootsIn .ui workspaces).count s :=
      List.duplicate_iff_two_le_count.mp h
    rw [List.count_append, count_rootsIn, count_rootsIn] at hcount
    rw [List.duplicate_iff_two_le_count]
    split at hcount
    · rename_i hconfig
      rw [hconfig, if_neg (by decide)] at hcount
      exact hcount
    · split at hcount
      · omega
      · omega
  | config => exact (duplicate_rootsIn_iff.mp h).2
  | ui => exact (duplicate_rootsIn_iff.mp h).2
  | app => cases h

/-! ## Findings -/

/-- A finding is on a directory with several workspaces in it: it names the directory, or the style
config that is found there. -/
inductive Repeated (disk : Disk) (root : Path) (workspaces : List Workspace) (f : Finding) : Prop
  | dependency {s : String} : f.kind = .dependencyViolation → s ∈ f.paths →
      List.Duplicate s (workspaces.map Workspace.root) → Repeated disk root workspaces f
  | style {s config : String} : f.kind = .missingSharedPreset ∨ f.kind = .hardcodedConfigValues →
      styleConfig? disk root s = .ok (some config) → f.paths = [config] →
      List.Duplicate s (workspaces.map Workspace.root) → Repeated disk root workspaces f

/-- Two findings, if they are alike, are the same, on a directory with several workspaces. -/
def Excused (disk : Disk) (root : Path) (workspaces : List Workspace) (f g : Finding) : Prop :=
  f.Alike g → f = g ∧ Repeated disk root workspaces f

/-- What stands twice in a list is a duplicate. -/
theorem pairwise_duplicate {α : Type} (xs : List α) :
    xs.Pairwise fun a b => a = b → List.Duplicate a xs := by
  refine List.pairwise_iff_forall_sublist.mpr fun {a b} hsub heq => ?_
  rw [← heq] at hsub
  exact List.duplicate_iff_sublist.mpr hsub

theorem pairwise_duplicate_of_sublist {α : Type} {xs ys : List α} (h : xs.Sublist ys) :
    xs.Pairwise fun a b => a = b → List.Duplicate a ys :=
  (pairwise_duplicate xs).imp fun hab heq => (hab heq).mono_sublist h

/-- Layers are missing in one way at most. -/
theorem pairwise_missingLayers (l : Layers) :
    (missingLayers l).Pairwise (Excused disk root workspaces) := by
  unfold missingLayers
  cases l.tokens.isEmpty <;> cases l.config.isEmpty <;> cases l.ui.isEmpty <;> simp

/-! ### Dependencies -/

theorem packageName?_of_mem_namedAmong {name : String} {targets named : List String}
    (h : namedAmong disk root name targets = .ok named) {target : String} (ht : target ∈ named) :
    Manifest.packageName? disk (placeOf root target) = .ok (some name) := by
  induction targets generalizing named with
  | nil =>
    cases h
    cases ht
  | cons first rest ih =>
    obtain ⟨found, hfound, h⟩ := bind_eq_ok_iff.mp h
    obtain ⟨more, hmore, h⟩ := bind_eq_ok_iff.mp h
    cases h
    split at ht
    · rename_i hname
      rcases List.mem_cons.mp ht with rfl | ht
      · rw [hfound, hname]
      · exact ih hmore ht
    · exact ih hmore ht

/-- The targets that one workspace may not depend on are found once for each dependency, and a
target has one name. -/
theorem pairwise_targets {dependencies : Table String} (hnames : dependencies.names.Nodup)
    {targets : List String} {found : List (List String)}
    (h : dependencies.mapM (fun e => namedAmong disk root e.1 targets) = .ok found) :
    found.flatten.Pairwise fun s t => s = t → List.Duplicate s targets := by
  have hall := mapM_eq_ok_iff.mp h
  refine List.pairwise_flatten.mpr ⟨fun named hnamed => ?_, ?_⟩
  · obtain ⟨e, _, hnamed⟩ := exists_of_mem_right hall hnamed
    exact pairwise_duplicate_of_sublist (sublist_namedAmong hnamed)
  · refine pairwise_of_forall₂ hall (List.pairwise_map.mp hnames) ?_
    intro e d named named' hne hnamed hnamed' s hs t ht hst
    have hname := packageName?_of_mem_namedAmong hnamed hs
    rw [hst, packageName?_of_mem_namedAmong hnamed' ht] at hname
    exact absurd (Option.some.inj (Except.ok.inj hname)).symm hne

theorem pairwise_violations (hnames : ∀ w ∈ workspaces, w.dependencies.names.Nodup)
    {fs : List Finding} (h : violations disk root (Layers.of workspaces) workspaces = .ok fs) :
    fs.Pairwise (Excused disk root workspaces) := by
  obtain ⟨found, hfound, h⟩ := bind_eq_ok_iff.mp h
  cases h
  have hall := mapM_eq_ok_iff.mp hfound
  have hroots : workspaces.Pairwise fun w v => w.root = v.root →
      List.Duplicate w.root (workspaces.map Workspace.root) :=
    List.pairwise_map.mp (pairwise_duplicate _)
  refine List.pairwise_flatten.mpr ⟨fun ys hys => ?_, pairwise_of_forall₂ hall hroots ?_⟩
  · -- one workspace: a target is found twice
    obtain ⟨w, hw, hys⟩ := exists_of_mem_right hall hys
    rcases violationsOf_eq_ok hys with rfl | ⟨layer, targets, _, htargets, rfl⟩
    · exact .nil
    · refine List.pairwise_map.mpr ((pairwise_targets (hnames w hw) htargets).imp ?_)
      intro s t hst halike
      have heq : s = t := (List.cons.inj (List.cons.inj halike.paths).2).1
      exact ⟨by rw [heq],
        .dependency rfl (by simp [violation]) (duplicate_of_forbidden (hst heq))⟩
  · -- two workspaces: they are in one directory
    intro w v ys zs hwv hys hzs f hf g hg halike
    rcases violationsOf_eq_ok hys with rfl | ⟨layer, targets, hlayer, _, rfl⟩
    · cases hf
    · rcases violationsOf_eq_ok hzs with rfl | ⟨layer', targets', hlayer', _, rfl⟩
      · cases hg
      · obtain ⟨s, _, rfl⟩ := List.mem_map.mp hf
        obtain ⟨t, _, rfl⟩ := List.mem_map.mp hg
        obtain ⟨heq, hrest⟩ := List.cons.inj halike.paths
        have htarget : s = t := (List.cons.inj hrest).1
        rw [heq, hlayer'] at hlayer
        have hsame : layer' = layer := Option.some.inj hlayer
        exact ⟨by rw [heq, htarget, hsame], .dependency rfl (by simp [violation]) (hwv heq)⟩

/-! ### Style configs -/

/-- A style config is found in one directory only. -/
def ConfigsApart (disk : Disk) (root : Path) (workspaces : List Workspace) : Prop :=
  ∀ s ∈ workspaces.map Workspace.root, ∀ t ∈ workspaces.map Workspace.root, ∀ config,
    styleConfig? disk root s = .ok (some config) → styleConfig? disk root t = .ok (some config) →
      s = t

theorem pairwise_styleFindings (hconfigs : ConfigsApart disk root workspaces)
    {isFault : List Char → Bool} {report : String → String → Finding}
    (hkind : ∀ workspace config, (report workspace config).kind = .missingSharedPreset
      ∨ (report workspace config).kind = .hardcodedConfigValues)
    (hpaths : ∀ workspace config, (report workspace config).paths = [config])
    {roots : List String} (hroots : roots.Sublist (workspaces.map Workspace.root))
    {fs : List Finding} (h : styleFindings disk root isFault report roots = .ok fs) :
    fs.Pairwise (Excused disk root workspaces) := by
  obtain ⟨picked, hpicked, hall⟩ := exists_picked_of_styleFindings h
  have hsub := hpicked.trans hroots
  have hboth := (List.forall₂_and_left _ _).mpr ⟨fun s hs => hsub.subset hs, hall⟩
  refine pairwise_of_forall₂ hboth (pairwise_duplicate_of_sublist hsub) ?_
  rintro s t f g hst ⟨hs, config, hfound, rfl⟩ ⟨ht, config', hfound', rfl⟩ halike
  have hsame := halike.paths
  rw [hpaths, hpaths] at hsame
  have heq : config = config' := (List.cons.inj hsame).1
  rw [← heq] at hfound'
  have hplace : s = t := hconfigs s hs t ht config hfound hfound'
  exact ⟨by rw [hplace, heq], .style (hkind s config) hfound (hpaths s config) (hst hplace)⟩

/-! ### All of them -/

theorem kind_of_mem_missingLayers {l : Layers} {f : Finding} (hf : f ∈ missingLayers l) :
    f.kind = .missingLayer := by
  simp only [missingLayers, List.mem_append, List.mem_ite_nil_right, List.mem_singleton] at hf
  rcases hf with (⟨_, rfl⟩ | ⟨_, rfl⟩) | ⟨_, rfl⟩ <;> rfl

theorem kind_of_mem_violations {l : Layers} {fs : List Finding}
    (h : violations disk root l workspaces = .ok fs) {f : Finding} (hf : f ∈ fs) :
    f.kind = .dependencyViolation := by
  obtain ⟨found, hfound, h⟩ := bind_eq_ok_iff.mp h
  cases h
  obtain ⟨w, _, ys, hys, hf⟩ := exists_of_mem_flatten hfound hf
  rcases violationsOf_eq_ok hys with rfl | ⟨_, _, _, _, rfl⟩
  · cases hf
  · obtain ⟨target, _, rfl⟩ := List.mem_map.mp hf
    rfl

theorem kind_of_mem_presetFindings {l : Layers} {fs : List Finding}
    (h : presetFindings disk root l = .ok fs) {f : Finding} (hf : f ∈ fs) :
    f.kind = .missingSharedPreset := by
  unfold presetFindings at h
  split at h
  · cases h
    cases hf
  · obtain ⟨_, _, _, _, rfl⟩ := exists_config_of_mem_styleFindings h hf
    rfl

theorem kind_of_mem_colorFindings {fs : List Finding}
    (h : colorFindings disk root workspaces = .ok fs) {f : Finding} (hf : f ∈ fs) :
    f.kind = .hardcodedConfigValues := by
  obtain ⟨_, _, _, _, rfl⟩ := exists_config_of_mem_styleFindings h hf
  rfl

/-- Findings of a kind, of which those that are alike are on a directory with several workspaces. -/
def OfKind (disk : Disk) (root : Path) (workspaces : List Workspace) (kind : FindingKind)
    (fs : List Finding) : Prop :=
  fs.Pairwise (Excused disk root workspaces) ∧ ∀ f ∈ fs, f.kind = kind

theorem ofKind_nil (kind : FindingKind) : OfKind disk root workspaces kind [] :=
  ⟨.nil, by simp⟩

theorem ofKind_presetFindings (hconfigs : ConfigsApart disk root workspaces) {fs : List Finding}
    (h : presetFindings disk root (Layers.of workspaces) = .ok fs) :
    OfKind disk root workspaces .missingSharedPreset fs := by
  refine ⟨?_, fun f hf => kind_of_mem_presetFindings h hf⟩
  unfold presetFindings at h
  split at h
  · cases h
    exact .nil
  · have happs : (rootsIn .app workspaces).Sublist (workspaces.map Workspace.root) :=
      List.filter_sublist.map _
    exact pairwise_styleFindings hconfigs (fun _ _ => Or.inl rfl) (fun _ _ => rfl) happs h

theorem ofKind_colorFindings (hconfigs : ConfigsApart disk root workspaces) {fs : List Finding}
    (h : colorFindings disk root workspaces = .ok fs) :
    OfKind disk root workspaces .hardcodedConfigValues fs :=
  ⟨pairwise_styleFindings hconfigs (fun _ _ => Or.inr rfl) (fun _ _ => rfl) (List.Sublist.refl _) h,
    fun _ hf => kind_of_mem_colorFindings h hf⟩

/-- Findings of an analysis that are alike are the same, on a directory with several workspaces. -/
theorem pairwise_findings (hnames : ∀ w ∈ workspaces, w.dependencies.names.Nodup)
    (hconfigs : ConfigsApart disk root workspaces) {a : Analysis}
    (h : analyze disk root workspaces = .ok a) :
    a.findings.Pairwise (Excused disk root workspaces) := by
  obtain ⟨upward, hupward, h⟩ := bind_eq_ok_iff.mp h
  obtain ⟨presets, hpresets, h⟩ := bind_eq_ok_iff.mp h
  obtain ⟨colors, hcolors, h⟩ := bind_eq_ok_iff.mp h
  cases h
  have hmissing : OfKind disk root workspaces .missingLayer
      (if workspaces.length > 1 then missingLayers (Layers.of workspaces) else []) := by
    split
    · exact ⟨pairwise_missingLayers _, fun f hf => kind_of_mem_missingLayers hf⟩
    · exact ofKind_nil _
  have hviolations : OfKind disk root workspaces .dependencyViolation upward :=
    ⟨pairwise_violations hnames hupward, fun f hf => kind_of_mem_violations hupward hf⟩
  have hall := pairwise_flatten_of_tags (fun f g hne halike => absurd halike.kind hne)
    (.cons hmissing (.cons hviolations (.cons (ofKind_presetFindings hconfigs hpresets)
      (.cons (ofKind_colorFindings hconfigs hcolors) .nil)))) (by decide)
  simpa using hall

theorem layers_of_analyze {a : Analysis} (h : analyze disk root workspaces = .ok a) :
    a.layers = summary (Layers.of workspaces) workspaces := by
  obtain ⟨_, _, h⟩ := bind_eq_ok_iff.mp h
  obtain ⟨_, _, h⟩ := bind_eq_ok_iff.mp h
  obtain ⟨_, _, h⟩ := bind_eq_ok_iff.mp h
  cases h
  rfl

end RepoSurvey.Design
