import RepoSurvey.Proofs.Design.Distinct
import RepoSurvey.Proofs.Survey.Places

/-!
# What a survey reports twice

A workspace is listed for every manifest, and a directory may hold several. The checks on the design
system go by workspaces, so such a directory is reported on more than once. Nothing else is.

* `Survey.configsApart`: style configs of different directories are different;
* `Survey.Distinct`: what is reported twice is on a directory with several workspaces;
* `Survey.distinct_of_run`: so it is in every result;
* `Survey.not_distinct_twoManifests`: a directory that is reported on twice.
-/

namespace RepoSurvey.Survey

variable {disk : Disk} {skip : NameSet} {place : List String} {c : Config}

theorem configsApart (hdisk : disk.WellFormed) {workspaces : List Workspace}
    (hworkspaces : ∀ w ∈ workspaces, Design.AtEntered disk skip place w.root) :
    Design.ConfigsApart disk ⟨true, place⟩ workspaces := by
  intro s hs t ht config hfound hfound'
  obtain ⟨w, hw, rfl⟩ := List.mem_map.mp hs
  obtain ⟨v, hv, rfl⟩ := List.mem_map.mp ht
  obtain ⟨p, hp, hentered⟩ := hworkspaces w hw
  obtain ⟨q, hq, hentered'⟩ := hworkspaces v hv
  rw [hp] at hfound
  rw [hq] at hfound'
  obtain ⟨name, hname, hconfig, _⟩ := Design.styleConfig?_eq_some hdisk.named hentered hfound
  obtain ⟨name', hname', hconfig', _⟩ := Design.styleConfig?_eq_some hdisk.named hentered' hfound'
  have hpath : p ++ [name] = q ++ [name'] := by
    refine Path.text_relative_inj (Design.proper_concat_styleConfig hdisk.named hentered hname)
      (Design.proper_concat_styleConfig hdisk.named hentered' hname') ?_
    rw [← hconfig, ← hconfig']
  have hdirectory : p = q := by
    have hdrop := congrArg List.dropLast hpath
    rwa [List.dropLast_concat, List.dropLast_concat] at hdrop
  rw [hp, hq, hdirectory]

/-- Findings on the design system and on the organization are of different kinds. -/
theorem kind_ne_of_domains {f g : Finding} (hf : f.kind ∈ Design.findingKinds)
    (hg : g.kind ∈ Organization.findingKinds) : f.kind ≠ g.kind := by
  have hall : ∀ k ∈ Design.findingKinds, k ∉ Organization.findingKinds := by decide
  intro heq
  exact hall _ hf (heq ▸ hg)

/-! ## Results -/

/-- A list of directories repeats those of a layer that have several workspaces. -/
def RepeatsIn (layer : Layer) (workspaces : List Workspace) (listed : List String) : Prop :=
  ∀ s, List.Duplicate s listed
    ↔ Layer.ofRoot? s = some layer ∧ List.Duplicate s (workspaces.map Workspace.root)

/-- What a result reports twice: findings that are alike are one, on a directory with several
workspaces, and such directories are what a layer lists more than once. -/
structure Distinct (disk : Disk) (root : Path) (r : SurveyResult) : Prop where
  findings : (r.findings.getD []).Pairwise fun f g =>
    f.Alike g → f = g ∧ Design.Repeated disk root r.workspaces f
  layers : ∀ l ∈ r.layers, RepeatsIn .tokens r.workspaces l.tokenPaths
    ∧ RepeatsIn .config r.workspaces l.configPaths ∧ RepeatsIn .ui r.workspaces l.uiPaths

theorem distinct_nothing (disk : Disk) (root : Path) : Distinct disk root .nothing :=
  ⟨.nil, fun l hl => by cases hl⟩

theorem distinct_of_ofDirectory (hdisk : disk.WellFormed) (hplace : disk.IsDirectory place)
    {r : SurveyResult} (hr : ofDirectory disk ⟨true, place⟩ c = .ok r) :
    Distinct disk ⟨true, place⟩ r := by
  obtain ⟨skip, detector, design, organization, _, hdetector, _, hworkspaces, hdesign,
    horganization, hfindings, hlayers, _⟩ := ofDirectory_eq_ok hr
  have hnames : ∀ w ∈ r.workspaces, w.dependencies.names.Nodup := by
    rw [hworkspaces]
    exact fun w hw => Detector.nodup_names_of_mem_result hdetector hw
  have hconfigs : Design.ConfigsApart disk ⟨true, place⟩ r.workspaces := by
    rw [hworkspaces]
    exact configsApart hdisk fun w hw => atEntered_of_mem_result hdisk hplace hdetector hw
  rw [← hworkspaces] at hdesign
  refine ⟨?_, fun l hl => ?_⟩
  · rw [hfindings, getD_findingsSection, List.pairwise_append]
    have hsecond := Organization.pairwise_findings hdisk horganization
    refine ⟨?_, hsecond.imp fun hne halike => absurd halike hne, fun f hf g hg halike => ?_⟩
    · cases design with
      | none => exact .nil
      | some a => exact Design.pairwise_findings hnames hconfigs (analyze_of_designOf hdesign)
    · have hg := Organization.onInventory_of_mem_findings hdisk.named horganization hg
      cases design with
      | none => cases hf
      | some a =>
        have hf := Design.onWorkspaces_of_mem_findings (analyze_of_designOf hdesign) hf
        exact absurd halike.kind (kind_ne_of_domains hf.kind hg.kind)
  · rw [hlayers] at hl
    obtain ⟨a, rfl, rfl⟩ := Option.map_eq_some_iff.mp hl
    rw [Design.layers_of_analyze (analyze_of_designOf hdesign)]
    exact ⟨fun s => Design.duplicate_rootsIn_iff, fun s => Design.duplicate_rootsIn_iff,
      fun s => Design.duplicate_rootsIn_iff⟩

theorem Distinct.nodup {root : Path} {r : SurveyResult} (h : Distinct disk root r)
    (hroots : (r.workspaces.map Workspace.root).Nodup) :
    (r.findings.getD []).Pairwise (fun f g => ¬ f.Alike g)
      ∧ ∀ l ∈ r.layers, l.tokenPaths.Nodup ∧ l.configPaths.Nodup ∧ l.uiPaths.Nodup := by
  have honce := List.nodup_iff_forall_not_duplicate.mp hroots
  have hlist : ∀ layer listed, RepeatsIn layer r.workspaces listed → listed.Nodup := by
    intro layer listed hrepeats
    exact List.nodup_iff_forall_not_duplicate.mpr fun s hs => honce s ((hrepeats s).mp hs).2
  refine ⟨h.findings.imp fun hrepeated halike => ?_, fun l hl => ?_⟩
  · cases (hrepeated halike).2 with
    | dependency _ _ hs => exact honce _ hs
    | style _ _ _ hs => exact honce _ hs
  · obtain ⟨htokens, hconfig, hui⟩ := h.layers l hl
    exact ⟨hlist _ _ htokens, hlist _ _ hconfig, hlist _ _ hui⟩

theorem distinct_result (hdisk : disk.WellFormed) {path : Path} {r : SurveyResult}
    (hr : run disk path c = .ok r) :
    ∃ root, disk.resolve path = .ok root ∧ Distinct disk root r := by
  obtain ⟨root, hroot, ⟨_, rfl⟩ | ⟨place, rfl, hplace, hr⟩⟩ := run_eq_ok hdisk hr
  · exact ⟨root, hroot, distinct_nothing disk root⟩
  · exact ⟨_, hroot, distinct_of_ofDirectory hdisk (hplace.isDirectory hdisk) hr⟩

/-- What a result reports twice is on a directory that holds several manifests. Where there is no
such directory, no two findings are alike and no layer lists a directory twice. -/
theorem distinct_of_run (hdisk : disk.WellFormed) {path : Path} {r : SurveyResult}
    (hr : run disk path c = .ok r) :
    (∃ root, disk.resolve path = .ok root ∧ Distinct disk root r)
      ∧ ((r.workspaces.map Workspace.root).Nodup →
        (r.findings.getD []).Pairwise (fun f g => ¬ f.Alike g)
          ∧ ∀ l ∈ r.layers, l.tokenPaths.Nodup ∧ l.configPaths.Nodup ∧ l.uiPaths.Nodup) := by
  obtain ⟨root, hroot, hdistinct⟩ := distinct_result hdisk hr
  exact ⟨⟨root, hroot, hdistinct⟩, hdistinct.nodup⟩

/-- Packages of three layers, the last of which has a style config with a colour in it and perhaps
more. -/
def layeredDisk (more : List (String × FileTree)) : Disk where
  tree :=
    let package : String × FileTree := ("package.json", .file (Utf8.encode "\x7b\x7d".toList))
    .directory [("r", .directory [
      ("config", .directory [package]),
      ("tokens", .directory [package]),
      ("ui", .directory (more ++ [package,
        ("tailwind.config.js", .file (Utf8.encode "'#fff'".toList))]))])]

theorem distinct_of_run_layered : (layeredDisk []).WellFormed
    ∧ ∃ r, run (layeredDisk []) ⟨true, ["r"]⟩ {} = .ok r
      ∧ r.workspaces.map Workspace.root = ["config", "tokens", "ui"]
      ∧ (r.findings.getD []).map (·.paths) = [["ui/tailwind.config.js"]]
      ∧ (r.workspaces.map Workspace.root).Nodup
      ∧ (r.findings.getD []).Pairwise (fun f g => ¬ f.Alike g)
      ∧ ∀ l ∈ r.layers, l.tokenPaths.Nodup ∧ l.configPaths.Nodup ∧ l.uiPaths.Nodup := by
  have hdisk : (layeredDisk []).WellFormed := by decide +kernel
  have hfound : (run (layeredDisk []) ⟨true, ["r"]⟩ {}).toOption.map (fun r =>
      (r.workspaces.map Workspace.root, (r.findings.getD []).map (·.paths)))
        = some (["config", "tokens", "ui"], [["ui/tailwind.config.js"]]) := by
    decide +kernel
  obtain ⟨r, hr, hparts⟩ := exists_ok_of_map_toOption hfound
  obtain ⟨hroots, hpaths⟩ := Prod.mk.inj hparts
  have hnodup : (r.workspaces.map Workspace.root).Nodup := by
    rw [hroots]
    decide
  exact ⟨hdisk, r, hr, hroots, hpaths, hnodup, (distinct_of_run hdisk hr).2 hnodup⟩

/-- A second manifest in a directory makes the same finding and the same directory appear twice. -/
theorem not_distinct_twoManifests : (layeredDisk [("Cargo.toml", .file [])]).WellFormed
    ∧ ∃ r, run (layeredDisk [("Cargo.toml", .file [])]) ⟨true, ["r"]⟩ {} = .ok r
      ∧ ¬ (r.findings.getD []).Nodup ∧ ∃ l ∈ r.layers, l.uiPaths = ["ui", "ui"] := by
  have hdisk : (layeredDisk [("Cargo.toml", .file [])]).WellFormed := by decide +kernel
  have hfound : (run (layeredDisk [("Cargo.toml", .file [])]) ⟨true, ["r"]⟩ {}).toOption.map
      (fun r => ((r.findings.getD []).map (fun f => (f.kind, f.severity, f.paths)),
        r.layers.map (·.uiPaths)))
        = some ([(.hardcodedConfigValues, .warning, ["ui/tailwind.config.js"]),
          (.hardcodedConfigValues, .warning, ["ui/tailwind.config.js"])], some ["ui", "ui"]) := by
    decide +kernel
  obtain ⟨r, hr, hparts⟩ := exists_ok_of_map_toOption hfound
  obtain ⟨hmarks, hui⟩ := Prod.mk.inj hparts
  obtain ⟨l, hl, hlisted⟩ := Option.map_eq_some_iff.mp hui
  refine ⟨hdisk, r, hr, fun hnodup => ?_, l, hl, hlisted⟩
  obtain ⟨f, rest, hfs, hf, hrest⟩ := List.map_eq_cons_iff.mp hmarks
  obtain ⟨g, _, rfl, hg, _⟩ := List.map_eq_cons_iff.mp hrest
  obtain ⟨_, _, hfindings, _⟩ := distinct_result hdisk hr
  rw [hfs] at hnodup hfindings
  have heq : (f.kind, f.severity, f.paths) = (g.kind, g.severity, g.paths) := hf.trans hg.symm
  obtain ⟨hkind, hmore⟩ := Prod.mk.inj heq
  obtain ⟨hseverity, hpaths⟩ := Prod.mk.inj hmore
  have hsame := ((List.pairwise_cons.mp hfindings).1 g (by simp) ⟨hkind, hseverity, hpaths⟩).1
  exact (List.nodup_cons.mp hnodup).1 (by simp [hsame])

end RepoSurvey.Survey
