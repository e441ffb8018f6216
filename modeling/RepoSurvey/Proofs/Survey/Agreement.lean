import RepoSurvey.Proofs.Survey.Congruence

/-!
# Directories that are passed over are invisible

* `Survey.run_eq_of_alike`: if two disks differ only strictly inside directories that are passed
  over, and both are surveyed with a result, the results are the same.
-/

namespace RepoSurvey

variable {skip : NameSet} {place : List String} {disk disk' : Disk}

open Walk

theorem Skip.load_eq (h : SeenAlike skip place disk disk') (extra : NameSet) :
    load disk ⟨true, place⟩ extra = load disk' ⟨true, place⟩ extra := by
  have hlookup := h.lookup_eq (entered_start h.directory) ignoreFile
  rw [List.append_nil] at hlookup
  have hchild : disk.lookup (Path.child ⟨true, place⟩ ignoreFile)
      = disk'.lookup (Path.child ⟨true, place⟩ ignoreFile) := hlookup
  exact load_congr (Disk.isFile_congr hchild) (Disk.readStrict?_congr hchild) extra

/-! ## Files and manifests -/

namespace Survey

theorem manifests_eq (h : SeenAlike skip place disk disk') :
    manifests disk ⟨true, place⟩ skip = manifests disk' ⟨true, place⟩ skip := by
  rw [manifests, manifests, ← h.entries_eq]
  refine List.filterMap_congr fun p hp => ?_
  have hseen := seen_of_mem_filePlaces h.left h.directory hp
  exact Detector.readable?_congr fun _ => Disk.readStrict?_congr (hseen.lookup_eq h)

theorem workspaceOf_eq (h : SeenAlike skip place disk disk') {m : FoundManifest}
    (hm : m ∈ manifests disk ⟨true, place⟩ skip) :
    Detector.workspaceOf disk ⟨true, place⟩ m.directory m.kind m.text
      = Detector.workspaceOf disk' ⟨true, place⟩ m.directory m.kind m.text := by
  obtain ⟨path, hdirectory, hentered, -⟩ := entered_of_mem_manifests h.left h.directory hm
  refine Detector.workspaceOf_congr h.alike.stack_eq (fun name _ => Disk.isFile_congr ?_) m.kind
    m.text
  rw [hdirectory]
  exact h.lookup_child_eq hentered name

/-- The workspaces collected are the same. -/
theorem workspaces_eq (h : SeenAlike skip place disk disk')
    {r r' : Detector × List (Option Workspace)}
    (hr : Detector.initial.visitAll disk ⟨true, place⟩
      (filePlaces ⟨true, place⟩ (Walk.entries disk ⟨true, place⟩ skip)) = .ok r)
    (hr' : Detector.initial.visitAll disk' ⟨true, place⟩
      (filePlaces ⟨true, place⟩ (Walk.entries disk' ⟨true, place⟩ skip)) = .ok r') :
    r.1.result = r'.1.result := by
  have hmade := made_of_visitAll h.left hr
  have hmade' := made_of_visitAll h.right hr'
  rw [made] at hmade hmade'
  rw [← manifests_eq h, ← mapM_congr fun m hm => workspaceOf_eq h hm, hmade] at hmade'
  rw [Detector.result, Detector.result, Except.ok.inj hmade']

theorem detectAll_eq (h : SeenAlike skip place disk disk') (c : Config) {files : List WalkEntry}
    (hfiles : ∀ e ∈ files, e ∈ Walk.entries disk ⟨true, place⟩ skip) :
    detectAll disk ⟨true, place⟩ c files = detectAll disk' ⟨true, place⟩ c files := by
  refine detectAll_congr fun e he => Disk.readWithin?_congr (Disk.readLenient?_congr ?_) _
  exact (seen_of_mem_entries h.left h.directory (hfiles e he)).lookup_eq h

end Survey

/-! ## The design system -/

namespace Design

/-- What is beside a workspace at a directory that is entered is the same. -/
theorem besideAlike_of_atEntered (h : SeenAlike skip place disk disk') {workspace : String}
    (hworkspace : AtEntered disk skip place workspace) :
    BesideAlike disk disk' ⟨true, place⟩ workspace := by
  obtain ⟨path, rfl, hentered⟩ := hworkspace
  have hplace := placeOf_entered h.left.named hentered
  constructor
  · exact h.alike.stack_eq
  · rw [hplace]
    exact Disk.readStrict?_congr (h.lookup_child_eq hentered "package.json")
  · intro name _
    rw [hplace]
    exact Disk.isFile_congr (h.lookup_child_eq hentered name)
  · intro name hname
    rw [stylePlace_entered h.left.named hentered hname]
    exact Disk.readLenient?_congr (h.lookup_eq hentered name)

/-- The analysis of workspaces at directories that are entered is the same. -/
theorem analyze_eq (h : SeenAlike skip place disk disk') {workspaces : List Workspace}
    (hworkspaces : ∀ w ∈ workspaces, AtEntered disk skip place w.root) :
    analyze disk ⟨true, place⟩ workspaces = analyze disk' ⟨true, place⟩ workspaces :=
  analyze_congr fun w hw => besideAlike_of_atEntered h (hworkspaces w hw)

end Design

/-! ## The organization -/

namespace Organization

/-- The analysis of the organization is the same, if there is one on both disks. -/
theorem analyze_eq (h : SeenAlike skip place disk disk') {c : Config}
    (hskip : ∀ name ∈ c.skipDirs, name ∈ skip) {a a' : Analysis}
    (ha : analyze disk ⟨true, place⟩ c skip = .ok a)
    (ha' : analyze disk' ⟨true, place⟩ c skip = .ok a') : a = a' := by
  rw [analyze, collect_eq h.left hskip] at ha
  rw [analyze, collect_eq h.right hskip, ← h.entries_eq] at ha'
  have hseen : ∀ path ∈ (Inventory.ofEntries (Walk.entries disk ⟨true, place⟩ skip)).files,
      Seen disk skip place (Path.below ⟨true, place⟩ path) :=
    fun path hpath => seen_of_mem_files h.left h.directory hpath
  generalize Inventory.ofEntries (Walk.entries disk ⟨true, place⟩ skip) = i at ha ha' hseen
  have hcontents : ∀ limit, contents disk ⟨true, place⟩ i limit
      = contents disk' ⟨true, place⟩ i limit := fun limit => contents_congr fun path hpath =>
    Disk.readWithin?_congr (Disk.readLenient?_congr ((hseen path hpath).lookup_eq h)) limit
  obtain ⟨found, hfound, ha⟩ := bind_eq_ok_iff.mp ha
  obtain ⟨found', hfound', ha'⟩ := bind_eq_ok_iff.mp ha'
  obtain ⟨g, hg, hcycles⟩ := bind_eq_ok_iff.mp hfound
  obtain ⟨g', hg', hcycles'⟩ := bind_eq_ok_iff.mp hfound'
  have hgraph : g = g' := by
    refine Import.graph_eq h (fun p hp => ?_) hg hg'
    obtain ⟨path, hpath, rfl⟩ := List.mem_map.mp hp
    exact hseen path hpath
  cases hcycles
  cases hcycles'
  rw [← hgraph, ← hcontents, ha] at ha'
  exact Except.ok.inj ha'

end Organization

/-! ## All together -/

namespace Survey

theorem designOf_eq (h : SeenAlike skip place disk disk') {workspaces : List Workspace}
    (hworkspaces : ∀ w ∈ workspaces, Design.AtEntered disk skip place w.root) :
    designOf disk ⟨true, place⟩ workspaces = designOf disk' ⟨true, place⟩ workspaces := by
  rw [designOf, designOf, Design.analyze_eq h hworkspaces]

theorem ofDirectory_eq (h : SeenAlike skip place disk disk') {c : Config}
    (hskip : Skip.load disk ⟨true, place⟩ c.skipDirs = .ok skip) {r r' : SurveyResult}
    (hr : ofDirectory disk ⟨true, place⟩ c = .ok r)
    (hr' : ofDirectory disk' ⟨true, place⟩ c = .ok r') : r = r' := by
  obtain ⟨found, d, design, a, hfound, hd, hdetections, hworkspaces, hdesign, ha, hfindings,
    hlayers, hstats⟩ := ofDirectory_eq_ok hr
  obtain ⟨found', d', design', a', hfound', hd', hdetections', hworkspaces', hdesign', ha',
    hfindings', hlayers', hstats'⟩ := ofDirectory_eq_ok hr'
  rw [hskip] at hfound
  rw [← Skip.load_eq h, hskip] at hfound'
  cases hfound
  cases hfound'
  have hsame : d.1.result = d'.1.result := workspaces_eq h hd hd'
  have hds : r.detections = r'.detections := by
    rw [← h.entries_eq, ← detectAll_eq h c fun e he => List.mem_of_mem_filter he,
      hdetections] at hdetections'
    exact Except.ok.inj hdetections'
  have hdesigns : design = design' := by
    rw [← hsame, ← designOf_eq h fun w hw => atEntered_of_mem_result h.left h.directory hd hw,
      hdesign] at hdesign'
    exact Except.ok.inj hdesign'
  have hanalyses : a = a' :=
    Organization.analyze_eq h (fun name hname => Skip.mem_of_load hskip hname) ha ha'
  obtain ⟨detections, workspaces, findings, layers, stats⟩ := r
  obtain ⟨detections', workspaces', findings', layers', stats'⟩ := r'
  dsimp only at hds hworkspaces hworkspaces' hfindings hfindings' hlayers hlayers' hstats hstats'
  rw [hds, hworkspaces, hworkspaces', hsame, hfindings, hfindings', hlayers, hlayers', hstats,
    hstats', hdesigns, hanalyses]

/-- Directories that are passed over are invisible. If two disks differ only strictly inside such
directories of a repository, and there are no links elsewhere in it nor right beside it, then the
results of surveying it are the same, if there are results. -/
theorem run_eq_of_alike (hdisk : disk.WellFormed) (hdisk' : disk'.WellFormed) {path : Path}
    (hpath : disk.destination path = .ok (.directory place))
    (hpath' : disk'.destination path = .ok (.directory place)) {c : Config}
    (hskip : Skip.load disk ⟨true, place⟩ c.skipDirs = .ok skip)
    (hlinks : Linkless skip place disk) (halike : Alike skip place disk disk')
    {r r' : SurveyResult} (hr : run disk path c = .ok r) (hr' : run disk' path c = .ok r') :
    r = r' := by
  rw [run_of_directory hpath] at hr
  rw [run_of_directory hpath'] at hr'
  have hplace := (Disk.resolve_of_destination hdisk hpath).2
  have hplace' := (Disk.resolve_of_destination hdisk' hpath').2
  exact ofDirectory_eq ⟨hdisk, hdisk', hplace, hplace', halike, hlinks⟩ hskip hr hr'

/-- A repository with a script that imports the directory `build`. -/
def builtDisk (build : List (String × FileTree)) : Disk where
  tree := .directory [("r", .directory [
    ("a.ts", .file (Utf8.encode "import './build'".toList)), ("build", .directory build)])]

theorem alike_builtDisk (skip : NameSet) (build build' : List (String × FileTree)) :
    Alike skip ["r"] (builtDisk build) (builtDisk build') := by
  refine ⟨fun p hp => ?_, rfl⟩
  match p with
  | [] => rfl
  | s :: p =>
    by_cases hs : "r" = s
    · subst hs
      match p with
      | [] => rfl
      | t :: p =>
        by_cases ht : "build" = t
        · subst ht
          match p with
          | [] => rfl
          | u :: p =>
            -- inside of the directory that is passed over
            refine absurd ⟨["build"], ⟨[], "build", rfl, Or.inl (by decide)⟩, ?_, by simp⟩ hp
            exact ⟨u :: p, rfl⟩
        · simp [builtDisk, Disk.node?, FileTree.at?, FileTree.entries, FileTree.find?, ht]
    · simp [builtDisk, Disk.node?, FileTree.at?, FileTree.entries, FileTree.find?, hs]

theorem linkless_builtDisk (skip : NameSet) (build : List (String × FileTree)) :
    Linkless skip ["r"] (builtDisk build) := by
  refine ⟨fun p target hat => ?_, fun name target hat => ?_⟩
  · match p with
    | [] => cases hat
    | s :: p =>
      by_cases hs : "build" = s
      · subst hs
        match p with
        | [] => cases hat
        | t :: p =>
          exact ⟨["build"], ⟨[], "build", rfl, Or.inl (by decide)⟩, ⟨t :: p, rfl⟩, by simp⟩
      · by_cases ha : "a.ts" = s
        · subst ha
          cases p <;> cases hat
        · simp [builtDisk, FileTree.at?, FileTree.entries, FileTree.find?, hs, ha] at hat
  · by_cases hr : "r" = name
    · subst hr
      cases hat
    · simp [builtDisk, FileTree.at?, FileTree.entries, FileTree.find?, hr] at hat

/-- What the import leads to in the directory that is passed over makes no difference. -/
theorem run_eq_of_alike_built : (builtDisk [("index.ts", .file [])]).WellFormed
    ∧ (builtDisk [("lost", .link "index.ts")]).WellFormed
    ∧ Alike [] ["r"] (builtDisk [("index.ts", .file [])]) (builtDisk [("lost", .link "index.ts")])
    ∧ ∃ r r', run (builtDisk [("index.ts", .file [])]) ⟨true, ["r"]⟩ {} = .ok r
      ∧ run (builtDisk [("lost", .link "index.ts")]) ⟨true, ["r"]⟩ {} = .ok r' ∧ r = r' := by
  have hdisk : (builtDisk [("index.ts", .file [])]).WellFormed := by decide +kernel
  have hdisk' : (builtDisk [("lost", .link "index.ts")]).WellFormed := by decide +kernel
  have halike := alike_builtDisk [] [("index.ts", .file [])] [("lost", .link "index.ts")]
  obtain ⟨r, hr⟩ : ∃ r, run (builtDisk [("index.ts", .file [])]) ⟨true, ["r"]⟩ {} = .ok r :=
    exists_ok_of_isSome (by decide +kernel)
  obtain ⟨r', hr'⟩ : ∃ r, run (builtDisk [("lost", .link "index.ts")]) ⟨true, ["r"]⟩ {} = .ok r :=
    exists_ok_of_isSome (by decide +kernel)
  have hskip : Skip.load (builtDisk [("index.ts", .file [])]) ⟨true, ["r"]⟩ [] = .ok [] := by
    decide +kernel
  refine ⟨hdisk, hdisk', halike, r, r', hr, hr', ?_⟩
  exact run_eq_of_alike hdisk hdisk' (by decide +kernel) (by decide +kernel) hskip
    (linkless_builtDisk [] _) halike hr hr'

end Survey

end RepoSurvey
