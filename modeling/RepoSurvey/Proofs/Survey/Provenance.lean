import RepoSurvey.Proofs.Design.Findings
import RepoSurvey.Proofs.Organization.Findings
import RepoSurvey.Proofs.Survey.Detections

/-!
# Where the paths of a result come from

Some paths of a result are those of files that are visited, others are made of names that are
probed or of the texts of imports. All of them come from the walk.

* `SurveyResult.paths`: the paths that a result reports;
* `Walk.Walked`, `Walk.Spared`: a path is visited; no directory on it is passed over;
* `Walk.spared_of_walked`: the first entails the second, with links on the disk or without;
* `Survey.Provenance`: what the paths of a result have;
* `Survey.provenance_of_run`: the paths of every result have it.
-/

namespace RepoSurvey

variable {disk : Disk} {skip : NameSet} {place : List String} {s : String}

/-- The paths that a result reports: files with detections, workspaces, what findings are on, and
the directories of the layers of a design system. -/
def SurveyResult.paths (r : SurveyResult) : List String :=
  r.detections.map (·.file) ++ r.workspaces.map (·.root)
    ++ (r.findings.getD []).flatMap (·.paths)
    ++ r.layers.toList.flatMap fun l => l.tokenPaths ++ l.configPaths ++ l.uiPaths

theorem SurveyResult.forall_mem_paths {P : String → Prop} {r : SurveyResult} :
    (∀ s ∈ r.paths, P s) ↔ (∀ d ∈ r.detections, P d.file) ∧ (∀ w ∈ r.workspaces, P w.root)
      ∧ (∀ f ∈ r.findings.getD [], ∀ s ∈ f.paths, P s)
      ∧ ∀ l ∈ r.layers, ∀ s ∈ l.tokenPaths ++ l.configPaths ++ l.uiPaths, P s := by
  simp only [paths, List.forall_mem_append, List.forall_mem_map, List.forall_mem_flatMap,
    Option.mem_toList, Option.mem_def, and_assoc]

/-! ## Paths that are visited -/

namespace Walk

/-- A path is that of the start of a walk or of something visited. -/
def Walked (disk : Disk) (root : Path) (skip : NameSet) (s : String) : Prop :=
  s = "." ∨ ∃ e ∈ entries disk root skip, s = e.text

/-- No directory on a path is passed over, nor the path itself if it leads to a directory. -/
def Spared (disk : Disk) (root : Path) (skip : NameSet) (s : String) : Prop :=
  ∀ q, q <+: (Path.ofText s).segments →
    (q = (Path.ofText s).segments →
      ∃ found, disk.lookup (Path.below root q) = .directory found) → ¬ Pruned skip q

/-- What is listed as a file does not lead to a directory. -/
theorem Stands.lookup_ne_directory (hdisk : disk.WellFormed) {sub : List String}
    (h : Stands disk sub ⟨true, sub⟩ false) (found : List String) :
    disk.lookup ⟨true, sub⟩ ≠ .directory found := by
  intro hlookup
  cases h with
  | link _ hfile =>
    rw [hlookup] at hfile
    cases hfile
  | file hat =>
    have hfollow := Disk.follow_of_lookup hlookup (fun h => by cases h) (fun h => by cases h)
    obtain rfl | ⟨front, name, rfl⟩ := List.eq_nil_or_concat' sub
    · obtain ⟨entries, hroot⟩ := hdisk.isDirectory_root
      rw [hroot] at hat
      cases hat
    · have hname : FileTree.EntryName name :=
        Disk.entryName_of_at? hdisk.named hat name (by simp)
      have hfront : disk.IsDirectory front := Disk.isDirectory_of_at?_below hat
      rw [Disk.follow_eq] at hfollow
      rcases Disk.descend_isDirectory hdisk.named [] front hfront with hreached | hdenied
      · rw [Disk.descend_append hreached, List.nil_append] at hfollow
        cases hsearch : (disk.rights front).search with
        | false =>
          rw [Disk.descend_denied hsearch] at hfollow
          cases hfollow
        | true =>
          rw [Disk.descend_cons hsearch hname.ne_dot hname.ne_dots hname.short, hat] at hfollow
          cases hfollow
      · rw [hdenied] at hfollow
        cases hfollow

theorem segments_ofText_text (hnamed : disk.tree.Named) {root : Path} {e : WalkEntry}
    (he : e ∈ entries disk root skip) : (Path.ofText e.text).segments = e.path := by
  obtain ⟨hne, hproper⟩ := proper_of_mem_entries hnamed he
  have htext := Path.ofText_text_relative fun s hs => (hproper s hs).toProper
  rw [Path.text_relative hne] at htext
  rw [WalkEntry.text, htext, Path.relative]

/-- No directory on a path that is visited is passed over. -/
theorem spared_of_walked (hdisk : disk.WellFormed) (hplace : disk.IsDirectory place)
    (h : Walked disk ⟨true, place⟩ skip s) : Spared disk ⟨true, place⟩ skip s := by
  intro q hq hself
  rcases h with rfl | ⟨e, he, rfl⟩
  · have hdot : (Path.ofText ".").segments = [] := by decide +kernel
    rw [hdot] at hq
    rw [List.prefix_nil.mp hq]
    exact not_pruned_nil skip
  · rw [segments_ofText_text hdisk.named he] at hq hself
    have hlisted := listed_of_mem_entries hdisk hplace he
    by_cases hwhole : q = e.path
    · obtain ⟨found, hfound⟩ := hself hwhole
      rw [hwhole] at hfound ⊢
      obtain ⟨path, isDirectory⟩ := e
      cases isDirectory with
      | true => exact hlisted.self rfl
      | false => exact absurd hfound (hlisted.stands.lookup_ne_directory hdisk found)
    · exact hlisted.above q hq hwhole

section Reached

variable (hdisk : disk.WellFormed) (hroot : disk.directory? ⟨true, place⟩ = some place)

include hdisk hroot

/-- The path of a directory that is entered is visited. -/
theorem walked_of_entered {path : List String} (h : Entered disk skip ⟨true, place⟩ place path) :
    Walked disk ⟨true, place⟩ skip (Path.relative path).text := by
  by_cases hstart : path = []
  · rw [hstart]
    exact Or.inl rfl
  · have hlisted := listed_directory_iff.mpr ⟨hstart, h⟩
    have hmem := (mem_entries_iff_listed hdisk hroot skip _).mpr hlisted
    exact Or.inr ⟨_, hmem, Path.text_relative hstart⟩

theorem walked_of_atEntered {workspace : String}
    (h : Design.AtEntered disk skip place workspace) :
    Walked disk ⟨true, place⟩ skip workspace := by
  obtain ⟨path, rfl, hentered⟩ := h
  exact walked_of_entered hdisk hroot hentered

/-- A file that is probed in a directory that is entered and listed is visited. -/
theorem walked_of_probed {path : List String} (h : Entered disk skip ⟨true, place⟩ place path)
    (hlists : disk.lists ⟨true, place ++ path⟩ = true) {name : String}
    (hname : FileTree.EntryName name) {bytes : Option (List UInt8)}
    (hfile : disk.lookup ⟨true, place ++ path ++ [name]⟩ = .file bytes) :
    Walked disk ⟨true, place⟩ skip (Path.relative (path ++ [name])).text := by
  obtain ⟨inner, hat⟩ := h.stands
  have his : (disk.lookup ⟨true, place ++ path ++ [name]⟩).isFile = true := by
    rw [hfile]
    rfl
  -- what is probed may be a link; wherever it leads, its own path is reported
  have hstands : Stands disk (place ++ path ++ [name]) ⟨true, place ++ path ++ [name]⟩ false := by
    rcases Disk.exists_entry_of_lookup hdisk hat hname his with ⟨_, hmem⟩ | ⟨_, hmem⟩
    · exact .file (stands_of_mem hdisk hat hmem)
    · exact .link (stands_of_mem hdisk hat hmem) his
  rw [List.append_assoc] at hstands
  have hmem := (mem_entries_iff_listed hdisk hroot skip _).mpr (h.listed_file hlists hstands)
  exact Or.inr ⟨_, hmem, Path.text_relative (by simp)⟩

/-- Workspaces at directories that are listed, and the style configs in them, are visited. -/
theorem walked_of_names {workspaces : List Workspace}
    (hworkspaces : ∀ w ∈ workspaces, Design.AtListed disk skip place w.root)
    (h : Design.Names disk ⟨true, place⟩ workspaces s) : Walked disk ⟨true, place⟩ skip s := by
  cases h with
  | workspace hw =>
    exact walked_of_atEntered hdisk hroot (hworkspaces _ hw).atEntered
  | styleConfig hw hconfig =>
    obtain ⟨path, hpath, hentered, hlists⟩ := hworkspaces _ hw
    rw [hpath] at hconfig
    obtain ⟨name, hname, rfl, bytes, hfile⟩ :=
      Design.styleConfig?_eq_some hdisk.named hentered hconfig
    have hentry := Design.entryName_of_mem_styleConfigNames hname
    exact walked_of_probed hdisk hroot hentered hlists hentry hfile

/-- What is in the inventory of a walk is visited. -/
theorem walked_of_inventory
    (h : (Inventory.ofEntries (entries disk ⟨true, place⟩ skip)).Names s) :
    Walked disk ⟨true, place⟩ skip s := by
  obtain ⟨e, he, rfl | rfl⟩ := Inventory.names_ofEntries h
  · exact Or.inr ⟨e, he, rfl⟩
  · have hplace := hdisk.isDirectory_of_lookup (Disk.directory?_eq_some.mp hroot)
    obtain ⟨path, name, hpath, hentered, -⟩ := (listed_of_mem_entries hdisk hplace he).entered
    rw [Inventory.directoryText, hpath, List.dropLast_concat]
    exact walked_of_entered hdisk hroot hentered

end Reached

end Walk

/-! ## Where they come from -/

namespace Survey

open Walk

/-- What the paths of a result have: each is visited, and no directory on it is passed over. Those
of detections and of circular imports are files. -/
structure Provenance (disk : Disk) (root : Path) (skip : NameSet) (r : SurveyResult) : Prop where
  walked : ∀ s ∈ r.paths, Walked disk root skip s
  spared : ∀ s ∈ r.paths, Spared disk root skip s
  detections : ∀ d ∈ r.detections, ∃ e ∈ Walk.files disk root skip, d.file = e.text
  circular : ∀ f ∈ r.findings.getD [], f.kind = .circularDependency →
    ∀ s ∈ f.paths, ∃ e ∈ Walk.files disk root skip, s = e.text

/-- What the paths of a finding have. -/
structure OnWalk (disk : Disk) (root : Path) (skip : NameSet) (f : Finding) : Prop where
  walked : ∀ s ∈ f.paths, Walked disk root skip s
  circular : f.kind = .circularDependency →
    ∀ s ∈ f.paths, ∃ e ∈ Walk.files disk root skip, s = e.text

/-- A file of the walk that is picked by its name as well. -/
theorem mem_files_of_mem_filter {root : Path} {p : String → Bool} {e : WalkEntry}
    (he : e ∈ (Walk.entries disk root skip).filter fun e => !e.isDirectory && p e.name) :
    e ∈ Walk.files disk root skip := by
  obtain ⟨hmem, hpicked⟩ := List.mem_filter.mp he
  exact List.mem_filter.mpr ⟨hmem, (Bool.and_eq_true_iff.mp hpicked).1⟩

section Directory

variable {c : Config} (hdisk : disk.WellFormed)
  (hroot : disk.directory? ⟨true, place⟩ = some place)

include hdisk hroot

theorem onWalk_of_design {workspaces : List Workspace}
    (hworkspaces : ∀ w ∈ workspaces, Design.AtListed disk skip place w.root)
    {a : Design.Analysis} (ha : Design.analyze disk ⟨true, place⟩ workspaces = .ok a)
    {f : Finding} (hf : f ∈ a.findings) : OnWalk disk ⟨true, place⟩ skip f := by
  have hon := Design.onWorkspaces_of_mem_findings ha hf
  exact ⟨fun s hs => walked_of_names hdisk hroot hworkspaces (hon.names s hs),
    fun hkind => absurd hkind hon.kind_ne⟩

theorem onWalk_of_organization (hskip : Skip.load disk ⟨true, place⟩ c.skipDirs = .ok skip)
    {a : Organization.Analysis} (ha : Organization.analyze disk ⟨true, place⟩ c skip = .ok a)
    {f : Finding} (hf : f ∈ a.findings) : OnWalk disk ⟨true, place⟩ skip f := by
  have hon := Organization.onInventory_of_mem_findings hdisk.named ha hf
  rw [Organization.collect_eq hdisk fun name => Skip.mem_of_load hskip] at hon
  refine ⟨fun s hs => walked_of_inventory hdisk hroot (hon.names s hs), fun hkind s hs => ?_⟩
  obtain ⟨path, hpath, rfl⟩ := hon.circular hkind s hs
  rw [Inventory.files_ofEntries] at hpath
  obtain ⟨e, he, rfl⟩ := List.mem_map.mp hpath
  exact ⟨e, mem_files_of_mem_filter he, rfl⟩

theorem provenance_of_ofDirectory {r : SurveyResult}
    (hr : ofDirectory disk ⟨true, place⟩ c = .ok r) :
    ∃ skip, Skip.load disk ⟨true, place⟩ c.skipDirs = .ok skip
      ∧ Provenance disk ⟨true, place⟩ skip r := by
  obtain ⟨skip, detector, design, organization, hskip, hdetector, hdetections, hworkspaces, hdesign,
    horganization, hfindings, hlayers, _⟩ := ofDirectory_eq_ok hr
  have hplace := hdisk.isDirectory_of_lookup (Disk.directory?_eq_some.mp hroot)
  have hlisted : ∀ w ∈ detector.1.workspaces, Design.AtListed disk skip place w.root :=
    fun w hw => atListed_of_mem_workspaces hdisk hplace hdetector hw
  have hfiles : ∀ d ∈ r.detections, ∃ e ∈ Walk.files disk ⟨true, place⟩ skip,
      d.file = e.text := by
    intro d hd
    obtain ⟨e, he, rule, _, hof⟩ := exists_rule_of_mem_detectAll hdetections hd
    exact ⟨e, mem_files_of_mem_filter he, hof.file⟩
  -- findings come from the design system first, then from the organization
  have honWalk : ∀ f ∈ r.findings.getD [], OnWalk disk ⟨true, place⟩ skip f := by
    intro f hf
    rw [hfindings, getD_findingsSection] at hf
    rcases List.mem_append.mp hf with hf | hf
    · cases design with
      | none => cases hf
      | some a =>
        exact onWalk_of_design hdisk hroot hlisted (analyze_workspaces_of_designOf hdesign) hf
    · exact onWalk_of_organization hdisk hroot hskip horganization hf
  have hwalked : ∀ s ∈ r.paths, Walked disk ⟨true, place⟩ skip s := by
    refine SurveyResult.forall_mem_paths.mpr ⟨fun d hd => ?_, fun w hw => ?_,
      fun f hf => (honWalk f hf).walked, fun l hl s hs => ?_⟩
    · obtain ⟨e, he, hfile⟩ := hfiles d hd
      exact Or.inr ⟨e, List.mem_of_mem_filter he, hfile⟩
    · rw [hworkspaces] at hw
      exact walked_of_atEntered hdisk hroot (atEntered_of_mem_result hdisk hplace hdetector hw)
    · rw [hlayers] at hl
      obtain ⟨a, rfl, rfl⟩ := Option.map_eq_some_iff.mp hl
      exact walked_of_names hdisk hroot hlisted
        (Design.names_of_mem_layers (analyze_workspaces_of_designOf hdesign) hs)
  exact ⟨skip, hskip, hwalked, fun s hs => spared_of_walked hdisk hplace (hwalked s hs), hfiles,
    fun f hf => (honWalk f hf).circular⟩

end Directory

/-- The paths of a result come from the walk of the directory that is surveyed, with links on the
disk or without: no directory on any of them is passed over. -/
theorem provenance_of_run (hdisk : disk.WellFormed) {path : Path} {c : Config} {r : SurveyResult}
    (hr : run disk path c = .ok r) :
    ∃ root, disk.resolve path = .ok root
      ∧ ((disk.directory? root = none ∧ r.paths = [])
        ∨ ∃ skip, Skip.load disk root c.skipDirs = .ok skip ∧ Provenance disk root skip r) := by
  obtain ⟨root, hroot, ⟨hnone, rfl⟩ | ⟨place, rfl, hplace, hr⟩⟩ := run_eq_ok hdisk hr
  · exact ⟨root, hroot, Or.inl ⟨hnone, rfl⟩⟩
  · have hdirectory := Disk.directory?_eq_some.mpr hplace
    exact ⟨_, hroot, Or.inr (provenance_of_ofDirectory hdisk hdirectory hr)⟩

/-- A repository with two scripts that import each other, and with a workspace whose style config is
a link into a directory that is passed over. -/
def sharedConfigDisk : Disk where
  tree := .directory [("r", .directory [
    ("a.ts", .file (Utf8.encode "import './b'".toList)),
    ("b.ts", .file (Utf8.encode "import './a'".toList)),
    ("build", .directory [("c.ts", .file (Utf8.encode "'#123456'".toList))]),
    ("d", .link "build"),
    ("package.json", .file (Utf8.encode "{}".toList)),
    ("ui", .directory [("package.json", .file (Utf8.encode "{}".toList)),
      ("tailwind.config.ts", .link "../build/c.ts")])])]

theorem provenance_of_run_shared : sharedConfigDisk.WellFormed
    ∧ ∃ r, run sharedConfigDisk ⟨true, ["r"]⟩ {} = .ok r
      ∧ r.paths = [".", "ui", "ui", "ui/tailwind.config.ts", "a.ts", "b.ts", "ui"]
      ∧ ∃ root, sharedConfigDisk.resolve ⟨true, ["r"]⟩ = .ok root
        ∧ ∃ skip, Skip.load sharedConfigDisk root [] = .ok skip
          ∧ Provenance sharedConfigDisk root skip r := by
  have hdisk : sharedConfigDisk.WellFormed := by decide +kernel
  have hpaths : (run sharedConfigDisk ⟨true, ["r"]⟩ {}).toOption.map SurveyResult.paths
      = some [".", "ui", "ui", "ui/tailwind.config.ts", "a.ts", "b.ts", "ui"] := by
    decide +kernel
  obtain ⟨r, hr, hlist⟩ := exists_ok_of_map_toOption hpaths
  refine ⟨hdisk, r, hr, hlist, ?_⟩
  obtain ⟨root, hroot, ⟨_, hempty⟩ | hskip⟩ := provenance_of_run hdisk hr
  · rw [hempty] at hlist
    cases hlist
  · exact ⟨root, hroot, hskip⟩

end Survey

end RepoSurvey
