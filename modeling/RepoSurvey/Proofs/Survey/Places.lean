import RepoSurvey.Proofs.Design.Findings
import RepoSurvey.Proofs.Disk.Agreement
import RepoSurvey.Proofs.Disk.Resolve
import RepoSurvey.Proofs.Organization.Findings
import RepoSurvey.Proofs.Survey.Failures

/-!
# Where the parts of a survey lie

Files and manifests that a survey looks at lie in directories that the walk enters, and workspaces
are named by such directories.

* `Design.AtEntered`, `Design.AtListed`: a text is the path of a directory that is entered, or
  listed as well;
* `Survey.seen_of_mem_entries`, `Survey.entered_of_mem_manifests`: files and manifests;
* `Survey.atListed_of_mem_workspaces`, `Survey.atEntered_of_mem_result`: workspaces;
* `Design.styleConfig?_eq_some`: style configs;
* `Organization.collect_eq`, `Organization.seen_of_mem_files`: the inventory;
* `Survey.run_eq_ok`, `Survey.ofDirectory_eq_ok`: the parts that a survey is made of;
* `Survey.organization_of_ofDirectory`: which of its findings are on the organization.
-/

namespace RepoSurvey

variable {skip : NameSet} {place : List String} {disk : Disk}

open Walk

theorem Skip.mem_of_load {root : Path} {extra : NameSet} (h : load disk root extra = .ok skip)
    {name : String} (hname : name ∈ extra) : name ∈ skip := by
  obtain ⟨found, _, hskip⟩ := bind_eq_ok_iff.mp h
  cases hskip
  exact NameSet.mem_union.mpr (Or.inl hname)

/-! ## Files and manifests -/

namespace Survey

/-- What is visited is seen. -/
theorem seen_of_mem_entries (hdisk : disk.WellFormed) (hplace : disk.IsDirectory place)
    {e : WalkEntry} (he : e ∈ Walk.entries disk ⟨true, place⟩ skip) :
    Seen disk skip place (Path.below ⟨true, place⟩ e.path) := by
  obtain ⟨path, name, hpath, hentered, -⟩ := (listed_of_mem_entries hdisk hplace he).entered
  exact ⟨path, name, by rw [Path.below, hpath, List.append_assoc], hentered⟩

theorem seen_of_mem_filePlaces (hdisk : disk.WellFormed) (hplace : disk.IsDirectory place)
    {p : Path} (hp : p ∈ filePlaces ⟨true, place⟩ (Walk.entries disk ⟨true, place⟩ skip)) :
    Seen disk skip place p := by
  obtain ⟨e, he, rfl⟩ := List.mem_map.mp hp
  exact seen_of_mem_entries hdisk hplace (List.mem_of_mem_filter he)

/-- A manifest lies in a directory that is entered and listed. -/
theorem entered_of_mem_manifests (hdisk : disk.WellFormed) (hplace : disk.IsDirectory place)
    {m : FoundManifest} (hm : m ∈ manifests disk ⟨true, place⟩ skip) :
    ∃ path, m.directory = ⟨true, place ++ path⟩ ∧ Entered disk skip ⟨true, place⟩ place path
      ∧ disk.lists ⟨true, place ++ path⟩ = true := by
  obtain ⟨p, hp, hread⟩ := List.mem_filterMap.mp hm
  obtain ⟨_, hdirectory, _⟩ := Detector.readable?_eq_some.mp hread
  obtain ⟨e, he, rfl⟩ := List.mem_map.mp hp
  have hlisted := listed_of_mem_entries hdisk hplace (List.mem_of_mem_filter he)
  obtain ⟨path, name, hpath, hentered, hlists⟩ := hlisted.entered
  refine ⟨path, ?_, hentered, hlists⟩
  rw [← hdirectory, hpath, (below_concat _ path name).1]

end Survey

/-! ## Workspaces and style configs -/

namespace Design

/-- A workspace is named by the path of a directory that is entered. -/
def AtEntered (disk : Disk) (skip : NameSet) (place : List String) (workspace : String) : Prop :=
  ∃ path, workspace = (Path.relative path).text ∧ Entered disk skip ⟨true, place⟩ place path

/-- A workspace is named by the path of a directory that is entered and listed. -/
def AtListed (disk : Disk) (skip : NameSet) (place : List String) (workspace : String) : Prop :=
  ∃ path, workspace = (Path.relative path).text ∧ Entered disk skip ⟨true, place⟩ place path
    ∧ disk.lists ⟨true, place ++ path⟩ = true

theorem AtListed.atEntered {workspace : String} (h : AtListed disk skip place workspace) :
    AtEntered disk skip place workspace := by
  obtain ⟨path, hpath, hentered, -⟩ := h
  exact ⟨path, hpath, hentered⟩

theorem join_relative (place path : List String) :
    Path.join ⟨true, place⟩ (Path.relative path) = ⟨true, place ++ path⟩ :=
  rfl

/-- The path of a directory that is entered is read back. -/
theorem ofText_entered (hnamed : disk.tree.Named) {path : List String}
    (hentered : Entered disk skip ⟨true, place⟩ place path) :
    Path.ofText (Path.relative path).text = Path.relative path :=
  Path.ofText_text_relative fun s hs => (hentered.entryName hnamed s hs).toProper

theorem placeOf_entered (hnamed : disk.tree.Named) {path : List String}
    (hentered : Entered disk skip ⟨true, place⟩ place path) :
    placeOf ⟨true, place⟩ (Path.relative path).text = ⟨true, place ++ path⟩ := by
  rw [placeOf, ofText_entered hnamed hentered, join_relative]

theorem entryName_of_mem_styleConfigNames {name : String} (h : name ∈ styleConfigNames) :
    FileTree.EntryName name := by
  have hall : ∀ n ∈ styleConfigNames, FileTree.EntryName n := by decide +kernel
  exact hall name h

/-- The path of a style config in a directory that is entered has proper names. -/
theorem proper_concat_styleConfig (hnamed : disk.tree.Named) {path : List String}
    (hentered : Entered disk skip ⟨true, place⟩ place path) {name : String}
    (hname : name ∈ styleConfigNames) :
    ∀ s ∈ path ++ [name], Name.Proper s := by
  intro s hs
  rcases List.mem_append.mp hs with hs | hs
  · exact (hentered.entryName hnamed s hs).toProper
  · rw [List.mem_singleton.mp hs]
    exact (entryName_of_mem_styleConfigNames hname).toProper

/-- A style config of a workspace at a directory that is entered is in that directory. -/
theorem stylePlace_entered (hnamed : disk.tree.Named) {path : List String}
    (hentered : Entered disk skip ⟨true, place⟩ place path) {name : String}
    (hname : name ∈ styleConfigNames) :
    placeOf ⟨true, place⟩ ((Path.ofText (Path.relative path).text).child name).text
      = ⟨true, place ++ path ++ [name]⟩ := by
  rw [ofText_entered hnamed hentered]
  show placeOf ⟨true, place⟩ (Path.relative (path ++ [name])).text = _
  rw [placeOf, Path.ofText_text_relative (proper_concat_styleConfig hnamed hentered hname),
    join_relative, List.append_assoc]

/-- A style config that is found is a file in the directory of its workspace. -/
theorem styleConfig?_eq_some (hnamed : disk.tree.Named) {path : List String}
    (hentered : Entered disk skip ⟨true, place⟩ place path) {config : String}
    (hconfig : styleConfig? disk ⟨true, place⟩ (Path.relative path).text = .ok (some config)) :
    ∃ name ∈ styleConfigNames, config = (Path.relative (path ++ [name])).text
      ∧ ∃ bytes, disk.lookup ⟨true, place ++ path ++ [name]⟩ = .file bytes := by
  rw [styleConfig?, ofText_entered hnamed hentered] at hconfig
  obtain ⟨found, hfound, hconfig⟩ := bind_eq_ok_iff.mp hconfig
  obtain ⟨name, rfl, rfl⟩ := Option.map_eq_some_iff.mp (Except.ok.inj hconfig)
  obtain ⟨hname, hfile⟩ := Disk.firstFile?_eq_some hfound
  exact ⟨name, hname, rfl, hfile⟩

end Design

/-! ## The inventory -/

namespace Organization

/-- The inventory is taken on a walk that passes over the same. -/
theorem collect_eq (hdisk : disk.WellFormed) {c : Config}
    (hskip : ∀ name ∈ c.skipDirs, name ∈ skip) :
    Inventory.collect disk ⟨true, place⟩ (NameSet.union skip c.skipDirs)
      = Inventory.ofEntries (Walk.entries disk ⟨true, place⟩ skip) := by
  rw [Inventory.collect, entries_eq_of_mem_iff hdisk fun name => ?_]
  rw [NameSet.mem_union]
  exact ⟨fun h => h.elim id (hskip name), Or.inl⟩

/-- The scripts of an inventory are seen. -/
theorem seen_of_mem_files (hdisk : disk.WellFormed) (hplace : disk.IsDirectory place)
    {path : List String}
    (hpath : path ∈ (Inventory.ofEntries (Walk.entries disk ⟨true, place⟩ skip)).files) :
    Seen disk skip place (Path.below ⟨true, place⟩ path) := by
  rw [Inventory.files_ofEntries] at hpath
  obtain ⟨e, he, rfl⟩ := List.mem_map.mp hpath
  exact Survey.seen_of_mem_entries hdisk hplace (List.mem_of_mem_filter he)

end Organization

/-! ## All together -/

namespace Survey

theorem atListed_workspaceOf (hdisk : disk.WellFormed) (hplace : disk.IsDirectory place)
    {m : FoundManifest} (hm : m ∈ manifests disk ⟨true, place⟩ skip) {w : Workspace}
    (hw : Detector.workspaceOf disk ⟨true, place⟩ m.directory m.kind m.text = .ok w) :
    Design.AtListed disk skip place w.root := by
  obtain ⟨path, hdirectory, hentered, hlists⟩ := entered_of_mem_manifests hdisk hplace hm
  obtain ⟨_, _, hw⟩ := bind_eq_ok_iff.mp hw
  obtain ⟨_, _, hw⟩ := bind_eq_ok_iff.mp hw
  cases hw
  exact ⟨path, by rw [hdirectory, List.drop_left], hentered, hlists⟩

/-- Every workspace that is collected is at a directory that is listed. -/
theorem atListed_of_mem_workspaces (hdisk : disk.WellFormed) (hplace : disk.IsDirectory place)
    {r : Detector × List (Option Workspace)}
    (hr : Detector.initial.visitAll disk ⟨true, place⟩
      (filePlaces ⟨true, place⟩ (Walk.entries disk ⟨true, place⟩ skip)) = .ok r)
    {w : Workspace} (hw : w ∈ r.1.workspaces) : Design.AtListed disk skip place w.root := by
  obtain ⟨m, hm, hmade⟩ := (mem_of_mapM_eq_ok (made_of_visitAll hdisk hr) w).mp hw
  exact atListed_workspaceOf hdisk hplace hm hmade

/-- Every workspace that is collected, and the unknown one, is at a directory that is entered. -/
theorem atEntered_of_mem_result (hdisk : disk.WellFormed) (hplace : disk.IsDirectory place)
    {r : Detector × List (Option Workspace)}
    (hr : Detector.initial.visitAll disk ⟨true, place⟩
      (filePlaces ⟨true, place⟩ (Walk.entries disk ⟨true, place⟩ skip)) = .ok r)
    {w : Workspace} (hw : w ∈ r.1.result) : Design.AtEntered disk skip place w.root := by
  unfold Detector.result at hw
  split at hw
  · rw [List.mem_singleton.mp hw]
    exact ⟨[], rfl, entered_start hplace⟩
  · exact (atListed_of_mem_workspaces hdisk hplace hr hw).atEntered

/-- A survey of anything but a directory has an empty result. -/
theorem run_eq_ok (hdisk : disk.WellFormed) {path : Path} {c : Config} {r : SurveyResult}
    (h : run disk path c = .ok r) :
    ∃ root, disk.resolve path = .ok root
      ∧ ((disk.directory? root = none ∧ r = .nothing)
        ∨ ∃ place, root = ⟨true, place⟩ ∧ disk.Reaches place
          ∧ ofDirectory disk ⟨true, place⟩ c = .ok r) := by
  rcases destination_of_run h with ⟨place, hpath, hr⟩ | ⟨found, hpath, hno, hr⟩
  · obtain ⟨hroot, hreaches⟩ := Disk.resolve_of_destination hdisk hpath
    exact ⟨_, hroot, Or.inr ⟨place, rfl, hreaches, hr⟩⟩
  · obtain ⟨root, hroot, hlookup⟩ := bind_eq_ok_iff.mp hpath
    refine ⟨root, hroot, Or.inl ⟨Option.eq_none_iff_forall_ne_some.mpr fun place hplace => ?_, hr⟩⟩
    exact hno place ((Except.ok.inj hlookup).symm.trans (Disk.directory?_eq_some.mp hplace))

/-- A survey is made of the parts that are collected in turn. -/
theorem ofDirectory_eq_ok {root : Path} {c : Config} {r : SurveyResult}
    (h : ofDirectory disk root c = .ok r) :
    ∃ skip detector design organization, Skip.load disk root c.skipDirs = .ok skip
      ∧ Detector.initial.visitAll disk root (filePlaces root (Walk.entries disk root skip))
        = .ok detector
      ∧ detectAll disk root c ((Walk.entries disk root skip).filter fun e =>
        !e.isDirectory && SourceFile.isSource e.name) = .ok r.detections
      ∧ r.workspaces = detector.1.result
      ∧ designOf disk root detector.1.result = .ok design
      ∧ Organization.analyze disk root c skip = .ok organization
      ∧ r.findings = findingsSection design
        ((design.map Design.Analysis.findings).getD [] ++ organization.findings)
      ∧ r.layers = design.map Design.Analysis.layers ∧ r.stats = some organization.stats := by
  obtain ⟨skip, hskip, h⟩ := bind_eq_ok_iff.mp h
  obtain ⟨detector, hdetector, h⟩ := bind_eq_ok_iff.mp h
  obtain ⟨detections, hdetections, h⟩ := bind_eq_ok_iff.mp h
  obtain ⟨design, hdesign, h⟩ := bind_eq_ok_iff.mp h
  obtain ⟨organization, horganization, h⟩ := bind_eq_ok_iff.mp h
  cases h
  exact ⟨skip, detector, design, organization, hskip, hdetector, hdetections, rfl, hdesign,
    horganization, rfl, rfl, rfl⟩

/-- The design system is analyzed where there is something to say of it. -/
theorem analyze_of_designOf {root : Path} {workspaces : List Workspace} {a : Design.Analysis}
    (h : designOf disk root workspaces = .ok (some a)) :
    Design.analyze disk root workspaces = .ok a := by
  unfold designOf at h
  split at h
  · obtain ⟨found, hfound, heq⟩ := map_eq_ok_iff.mp h
    cases heq
    exact hfound
  · cases h

/-- It is the collected workspaces that are looked at then. -/
theorem analyze_workspaces_of_designOf {root : Path} {d : Detector} {a : Design.Analysis}
    (h : designOf disk root d.result = .ok (some a)) :
    Design.analyze disk root d.workspaces = .ok a := by
  rw [designOf_result] at h
  split at h
  · obtain ⟨found, hfound, heq⟩ := map_eq_ok_iff.mp h
    cases heq
    exact hfound
  · cases h

theorem getD_findingsSection (design : Option Design.Analysis) (findings : List Finding) :
    (findingsSection design findings).getD [] = findings := by
  unfold findingsSection
  split
  · rename_i hnone
    have hempty := (Bool.and_eq_true_iff.mp hnone).1
    exact (List.isEmpty_iff.mp hempty).symm
  · rfl

/-- The domain of a finding tells which analysis it is of. -/
theorem filter_domain (design : Option Design.Analysis) {organization : Organization.Analysis}
    (hdesign : ∀ a ∈ design, ∀ f ∈ a.findings, f.domain = Design.domain)
    (horganization : ∀ f ∈ organization.findings, f.domain = Organization.domain) :
    ((design.map Design.Analysis.findings).getD [] ++ organization.findings).filter
      (fun f => f.domain == Organization.domain) = organization.findings := by
  have hfirst : ((design.map Design.Analysis.findings).getD []).filter
      (fun f => f.domain == Organization.domain) = [] := by
    cases design with
    | none => rfl
    | some a =>
      refine List.filter_eq_nil_iff.mpr fun f hf => ?_
      rw [hdesign a rfl f hf]
      decide
  have hsecond : organization.findings.filter (fun f => f.domain == Organization.domain)
      = organization.findings := by
    refine List.filter_eq_self.mpr fun f hf => ?_
    rw [horganization f hf]
    exact beq_self_eq_true _
  rw [List.filter_append, hfirst, hsecond, List.nil_append]

/-- The findings on the organization and the figures are those of the analysis of it. -/
theorem organization_of_ofDirectory (hdisk : disk.WellFormed) {root : Path} {c : Config}
    {r : SurveyResult} (h : ofDirectory disk root c = .ok r) :
    ∃ skip organization, Skip.load disk root c.skipDirs = .ok skip
      ∧ Organization.analyze disk root c skip = .ok organization
      ∧ (r.findings.getD []).filter (fun f => f.domain == Organization.domain)
        = organization.findings
      ∧ r.stats = some organization.stats := by
  obtain ⟨skip, _, design, organization, hskip, _, _, _, hdesign, horganization, hfindings, _,
    hstats⟩ := ofDirectory_eq_ok h
  refine ⟨skip, organization, hskip, horganization, ?_, hstats⟩
  rw [hfindings, getD_findingsSection]
  refine filter_domain design (fun found hd f hf => ?_) fun f hf => ?_
  · rw [Option.mem_def.mp hd] at hdesign
    exact (Design.onWorkspaces_of_mem_findings (analyze_of_designOf hdesign) hf).domain
  · exact (Organization.onInventory_of_mem_findings hdisk.named horganization hf).domain

end Survey

end RepoSurvey
