import RepoSurvey.Proofs.Catalog.Detect
import RepoSurvey.Proofs.Design.Analysis
import RepoSurvey.Proofs.Organization.CircularImports
import RepoSurvey.Survey

/-!
# Where a survey fails

* `Survey.manifests`, `Survey.made`: the manifests of a walk that can be read, and what is made of
  them;
* `Survey.Passable`: nothing in a directory makes its survey fail;
* `Survey.exists_detectAll_ok`: searching files for patterns never does;
* `Survey.run_ok_iff`: a survey gives a result exactly where everything is passable.
-/

namespace RepoSurvey.Survey

variable {disk : Disk} {root : Path} {c : Config} {skip : NameSet}

/-! ## Searching files -/

theorem exists_detectFile_ok {rules : List Rule} (hrules : ∀ r ∈ rules, r.Reportable)
    (place : Path) {file : String} (hfile : file.isEmpty = false) {radius : Int}
    (hradius : 0 ≤ radius) (limit : Int) :
    ∃ ds, detectFile disk rules place file radius limit = .ok ds := by
  unfold detectFile
  cases disk.readLenient? place with
  | none => exact ⟨[], rfl⟩
  | some text => exact Catalog.exists_detect_ok hrules hfile hradius text limit

theorem mem_of_mem_batches {size : Positive} {files batch : List WalkEntry}
    (hbatch : batch ∈ batches size files) {e : WalkEntry} (he : e ∈ batch) : e ∈ files := by
  rw [← flatten_batches size files]
  exact List.mem_flatten_of_mem hbatch he

theorem exists_detectAll_ok {files : List WalkEntry}
    (hfiles : ∀ e ∈ files, e.text.isEmpty = false) :
    ∃ ds, detectAll disk root c files = .ok ds := by
  have hbatches : ∃ found, (batches c.batchSize files).mapM (detectBatch disk root c)
      = .ok found := by
    refine exists_mapM_ok_iff.mpr fun batch hbatch => ?_
    refine exists_bind_pure_ok_iff.mpr (exists_mapM_ok_iff.mpr fun e he => ?_)
    have hfile := hfiles e (mem_of_mem_batches hbatch he)
    exact exists_detectFile_ok Catalog.reportable_rules _ hfile (Int.natCast_nonneg _) _
  obtain ⟨found, hfound⟩ := hbatches
  refine exists_bind_pure_ok_iff.mpr ⟨found, ?_⟩
  rw [hfound]
  rfl

/-- What is visited has a path to write. -/
theorem text_ne_empty_of_mem_entries (hdisk : disk.WellFormed) {e : WalkEntry}
    (he : e ∈ Walk.entries disk root skip) : e.text.isEmpty = false := by
  obtain ⟨hne, hproper⟩ := Walk.proper_of_mem_entries hdisk.named he
  have hsplit := splitSlashes_joined hne fun s hs => (hproper s hs).slash_free
  rw [WalkEntry.text, ← Bool.not_eq_true, String.isEmpty_iff]
  intro hempty
  rw [hempty] at hsplit
  exact (hproper "" (hsplit ▸ List.mem_cons_self)).ne_empty rfl

/-! ## Manifests -/

/-- The manifests of a walk that can be read. -/
def manifests (disk : Disk) (root : Path) (skip : NameSet) : List FoundManifest :=
  Detector.readable disk (filePlaces root (Walk.entries disk root skip))

/-- The workspaces that are made of them. -/
def made (disk : Disk) (root : Path) (skip : NameSet) : Except SurveyError (List Workspace) :=
  (manifests disk root skip).mapM fun m =>
    Detector.workspaceOf disk root m.directory m.kind m.text

theorem below_concat (root : Path) (below : List String) (name : String) :
    (Path.below root (below ++ [name])).parent = ⟨root.absolute, root.segments ++ below⟩
      ∧ (Path.below root (below ++ [name])).name = name := by
  unfold Path.below Path.parent Path.name
  rw [← List.append_assoc]
  simp

/-- The files of a walk are all different. -/
theorem nodup_filePlaces (hdisk : disk.WellFormed) :
    ((filePlaces root (Walk.entries disk root skip)).map fun p => (p.parent, p.name)).Nodup := by
  have hfiles : (((Walk.entries disk root skip).filter (!·.isDirectory)).map (·.path)).Nodup :=
    (Walk.nodup_entries hdisk.distinct root skip).sublist (List.filter_sublist.map _)
  rw [filePlaces, List.map_map]
  refine List.Nodup.map_on ?_ hfiles.of_map
  intro e he d hd heq
  have hpath : ∀ a ∈ (Walk.entries disk root skip).filter (!·.isDirectory),
      ∃ below name, a.path = below ++ [name] := by
    intro a ha
    obtain ⟨hne, _⟩ := Walk.proper_of_mem_entries hdisk.named (List.mem_of_mem_filter ha)
    exact ⟨_, _, (List.dropLast_append_getLast hne).symm⟩
  refine List.inj_on_of_nodup_map hfiles he hd ?_
  obtain ⟨below, name, hbelow⟩ := hpath e he
  obtain ⟨below', name', hbelow'⟩ := hpath d hd
  simp only [Function.comp, hbelow, hbelow', below_concat, Prod.mk.injEq, Path.mk.injEq,
    true_and, List.append_cancel_left_eq] at heq
  rw [hbelow, hbelow', heq.1, heq.2]

/-- The directory of a manifest is below the root. -/
theorem exists_directory_of_mem_manifests (hdisk : disk.WellFormed) {m : FoundManifest}
    (hm : m ∈ manifests disk root skip) :
    ∃ below, m.directory = ⟨root.absolute, root.segments ++ below⟩
      ∧ ∀ s ∈ below, Name.Proper s := by
  obtain ⟨path, hpath, hread⟩ := List.mem_filterMap.mp hm
  obtain ⟨e, he, rfl⟩ := List.mem_map.mp hpath
  obtain ⟨_, hdirectory, _⟩ := Detector.readable?_eq_some.mp hread
  obtain ⟨hne, hproper⟩ :=
    Walk.proper_of_mem_entries hdisk.named (List.mem_of_mem_filter he)
  obtain ⟨below, name, hbelow⟩ : ∃ below name, e.path = below ++ [name] :=
    ⟨_, _, (List.dropLast_append_getLast hne).symm⟩
  rw [hbelow] at hdirectory hproper
  rw [(below_concat _ below name).1] at hdirectory
  exact ⟨below, hdirectory.symm, fun s hs => (hproper s (List.mem_append_left _ hs)).toProper⟩

/-- The workspace of a manifest is at the directory of the manifest. -/
theorem placeOf_workspace (hdisk : disk.WellFormed) {m : FoundManifest}
    (hm : m ∈ manifests disk root skip) {w : Workspace}
    (hw : Detector.workspaceOf disk root m.directory m.kind m.text = .ok w) :
    Design.placeOf root w.root = m.directory := by
  obtain ⟨below, hdirectory, hproper⟩ := exists_directory_of_mem_manifests hdisk hm
  obtain ⟨_, _, hw⟩ := bind_eq_ok_iff.mp hw
  obtain ⟨_, _, hw⟩ := bind_eq_ok_iff.mp hw
  cases hw
  rw [hdirectory, Design.placeOf, List.drop_left, Path.ofText_text_relative hproper]
  rfl

/-! ## Workspaces -/

theorem map_visitAll (hdisk : disk.WellFormed) (root : Path) (skip : NameSet) :
    (Detector.initial.visitAll disk root (filePlaces root (Walk.entries disk root skip))).map
        (fun r => r.1.workspaces) = made disk root skip := by
  rw [Detector.visitAll_workspaces (nodup_filePlaces hdisk) fun p _ => List.not_mem_nil]
  rw [made, manifests]
  cases (Detector.readable disk (filePlaces root (Walk.entries disk root skip))).mapM fun m =>
    Detector.workspaceOf disk root m.directory m.kind m.text <;> rfl

/-- The walk is taken in if a workspace can be made of every manifest that can be read. -/
theorem exists_visitAll_ok_iff (hdisk : disk.WellFormed) :
    (∃ r, Detector.initial.visitAll disk root (filePlaces root (Walk.entries disk root skip))
        = .ok r)
      ↔ ∀ m ∈ manifests disk root skip,
        Detector.LockfilesSettle disk m ∧ m.kind.WithinLimits disk.stack m.text := by
  have hmap := map_visitAll hdisk root skip
  have hall : (∃ ws, made disk root skip = .ok ws)
      ↔ ∀ m ∈ manifests disk root skip,
        Detector.LockfilesSettle disk m ∧ m.kind.WithinLimits disk.stack m.text := by
    rw [made, exists_mapM_ok_iff]
    exact forall₂_congr fun m _ => Detector.exists_workspaceOf_ok_iff
  rw [← hall, ← hmap]
  cases Detector.initial.visitAll disk root (filePlaces root (Walk.entries disk root skip)) with
  | error e => simp [Except.map]
  | ok r => simp [Except.map]

theorem made_of_visitAll (hdisk : disk.WellFormed) {r : Detector × List (Option Workspace)}
    (h : Detector.initial.visitAll disk root (filePlaces root (Walk.entries disk root skip))
      = .ok r) : made disk root skip = .ok r.1.workspaces := by
  rw [← map_visitAll hdisk root skip, h]
  rfl

/-- The design system is looked at where there are several workspaces, none of which is then the
unknown one. -/
theorem designOf_result (d : Detector) : designOf disk root d.result
    = if 1 < d.workspaces.length then (Design.analyze disk root d.workspaces).map some
      else .ok none := by
  unfold designOf Detector.result
  cases d.workspaces with
  | nil => rfl
  | cons w ws => rfl

/-- The workspaces are where the manifests are. -/
theorem forall_styleSettles_iff (hdisk : disk.WellFormed) {ws : List Workspace}
    (hmade : made disk root skip = .ok ws) :
    (∀ w ∈ ws, Design.StyleSettles disk root w.root)
      ↔ ∀ m ∈ manifests disk root skip,
        disk.Settles (Design.styleConfigNames.map m.directory.child) := by
  constructor
  · intro h m hm
    obtain ⟨w, hw⟩ := exists_mapM_ok_iff.mp ⟨_, hmade⟩ m hm
    rw [← placeOf_workspace hdisk hm hw]
    exact h w ((mem_of_mapM_eq_ok hmade w).mpr ⟨m, hm, hw⟩)
  · intro h w hw
    obtain ⟨m, hm, hw⟩ := (mem_of_mapM_eq_ok hmade w).mp hw
    rw [Design.StyleSettles, placeOf_workspace hdisk hm hw]
    exact h m hm

/-- The design system is looked at where there are at least two manifests. Then the package names
that are asked for and the style configs beside all manifests must allow it. -/
theorem exists_designOf_ok_iff (hdisk : disk.WellFormed) {d : Detector}
    (hmade : made disk root skip = .ok d.workspaces) :
    (∃ design, designOf disk root d.result = .ok design)
      ↔ (1 < d.workspaces.length → Design.NamesSettle disk root d.workspaces)
        ∧ (1 < (manifests disk root skip).length → ∀ m ∈ manifests disk root skip,
          disk.Settles (Design.styleConfigNames.map m.directory.child)) := by
  have hlength := (mapM_eq_ok_iff.mp hmade).length_eq
  rw [designOf_result, hlength]
  by_cases hmany : 1 < d.workspaces.length
  · have hsome : (∃ design, (Design.analyze disk root d.workspaces).map some = .ok design)
        ↔ ∃ a, Design.analyze disk root d.workspaces = .ok a := by
      cases Design.analyze disk root d.workspaces <;> simp [Except.map]
    rw [if_pos hmany, hsome, Design.exists_analyze_ok_iff]
    rw [forall_styleSettles_iff hdisk hmade, forall_prop_of_true hmany, forall_prop_of_true hmany]
  · rw [if_neg hmany]
    exact iff_of_true ⟨none, rfl⟩ ⟨fun h => absurd h hmany, fun h => absurd h hmany⟩

/-! ## All together -/

/-- Nothing in a directory makes its survey fail: no manifest that can be read holds a whole number
with too many digits or nests too deeply, the lockfiles and style configs beside manifests can be
looked for, the package names that are asked for can be read, and the targets of imports can be
looked for. -/
structure Passable (disk : Disk) (root : Path) (c : Config) (skip : NameSet) : Prop where
  limits : ∀ m ∈ manifests disk root skip, m.kind.WithinLimits disk.stack m.text
  lockfiles : ∀ m ∈ manifests disk root skip, Detector.LockfilesSettle disk m
  names : ∀ ws, made disk root skip = .ok ws → 1 < ws.length → Design.NamesSettle disk root ws
  styles : 1 < (manifests disk root skip).length → ∀ m ∈ manifests disk root skip,
    disk.Settles (Design.styleConfigNames.map m.directory.child)
  imports : ∀ p ∈ Organization.scripts disk root c skip,
    ∀ literal ∈ Import.ofFile disk (Path.below root p) (c.fileSize : Nat),
      Import.Resolvable disk (Path.below root p) literal

theorem exists_ofDirectory_ok_iff (hdisk : disk.WellFormed) :
    (∃ r, ofDirectory disk root c = .ok r)
      ↔ ∃ skip, Skip.load disk root c.skipDirs = .ok skip ∧ Passable disk root c skip := by
  constructor
  · rintro ⟨r, h⟩
    obtain ⟨skip, hskip, h⟩ := bind_eq_ok_iff.mp h
    obtain ⟨⟨d, offered⟩, hr, h⟩ := bind_eq_ok_iff.mp h
    obtain ⟨_, _, h⟩ := bind_eq_ok_iff.mp h
    obtain ⟨design, hdesign, h⟩ := bind_eq_ok_iff.mp h
    obtain ⟨a, ha, _⟩ := bind_eq_ok_iff.mp h
    have hread := (exists_visitAll_ok_iff hdisk).mp ⟨_, hr⟩
    have hmade := made_of_visitAll hdisk hr
    obtain ⟨hnames, hstyles⟩ := (exists_designOf_ok_iff hdisk hmade).mp ⟨design, hdesign⟩
    refine ⟨skip, hskip, fun m hm => (hread m hm).2, fun m hm => (hread m hm).1, fun ws hws => ?_,
      hstyles, Organization.exists_analyze_ok_iff.mp ⟨a, ha⟩⟩
    cases hmade.symm.trans hws
    exact hnames
  · rintro ⟨skip, hskip, hlimits, hlockfiles, hnames, hstyles, himports⟩
    obtain ⟨⟨d, offered⟩, hr⟩ :=
      (exists_visitAll_ok_iff hdisk).mpr fun m hm => ⟨hlockfiles m hm, hlimits m hm⟩
    obtain ⟨ds, hds⟩ := exists_detectAll_ok fun e he =>
      text_ne_empty_of_mem_entries hdisk (List.mem_of_mem_filter he)
    have hmade := made_of_visitAll hdisk hr
    obtain ⟨design, hdesign⟩ :=
      (exists_designOf_ok_iff hdisk hmade).mpr ⟨hnames _ hmade, hstyles⟩
    obtain ⟨a, ha⟩ := Organization.exists_analyze_ok_iff.mpr himports
    refine exists_bind_ok_iff.mpr ⟨skip, hskip, exists_bind_ok_iff.mpr ⟨(d, offered), hr, ?_⟩⟩
    refine exists_bind_ok_iff.mpr ⟨ds, hds, exists_bind_ok_iff.mpr ⟨design, hdesign, ?_⟩⟩
    exact exists_bind_ok_iff.mpr ⟨a, ha, _, rfl⟩

theorem exists_load_ok_iff {extra : NameSet} :
    (∃ skip, Skip.load disk root extra = .ok skip)
      ↔ (disk.lookup (root.child Skip.ignoreFile)).error? = none := by
  rw [Skip.load, exists_bind_pure_ok_iff, Skip.ofRepository, ← Disk.exists_isFile_ok_iff,
    exists_bind_ok_iff]
  constructor
  · rintro ⟨answer, hanswer, _⟩
    exact ⟨answer, hanswer⟩
  · rintro ⟨answer, hanswer⟩
    refine ⟨answer, hanswer, ?_⟩
    cases answer with
    | true => exact ⟨_, rfl⟩
    | false => exact ⟨_, rfl⟩

theorem run_of_error {path : Path} {e : SurveyError} (hpath : disk.destination path = .error e)
    (c : Config) : run disk path c = .error e := by
  rw [run, hpath]
  rfl

theorem run_of_directory {path : Path} {place : List String}
    (hpath : disk.destination path = .ok (.directory place)) (c : Config) :
    run disk path c = ofDirectory disk ⟨true, place⟩ c := by
  rw [run, hpath]
  rfl

/-- What is not a directory only stops a survey if it cannot be told what it is. -/
theorem run_of_not_directory {path : Path} {found : Disk.Found}
    (hpath : disk.destination path = .ok found) (hno : ∀ place, found ≠ .directory place)
    (c : Config) :
    run disk path c = match found.error? with
      | some e => .error e
      | none => .ok .nothing := by
  rw [run, hpath]
  cases found with
  | directory place => exact absurd rfl (hno place)
  | file bytes => rfl
  | absent => rfl
  | nameTooLong => rfl
  | denied => rfl
  | tooManyLinks => rfl

/-- What a result is of: a directory, or nothing. -/
theorem destination_of_run {path : Path} {r : SurveyResult} (h : run disk path c = .ok r) :
    (∃ place, disk.destination path = .ok (.directory place)
        ∧ ofDirectory disk ⟨true, place⟩ c = .ok r)
      ∨ ∃ found, disk.destination path = .ok found ∧ (∀ place, found ≠ .directory place)
        ∧ r = .nothing := by
  obtain ⟨found, hpath, _⟩ := bind_eq_ok_iff.mp h
  by_cases hdirectory : ∃ place, found = .directory place
  · obtain ⟨place, rfl⟩ := hdirectory
    exact Or.inl ⟨place, hpath, (run_of_directory hpath c).symm.trans h⟩
  · have hno := not_exists.mp hdirectory
    refine Or.inr ⟨found, hpath, hno, ?_⟩
    rw [run_of_not_directory hpath hno] at h
    cases he : found.error? with
    | some e =>
      rw [he] at h
      cases h
    | none =>
      rw [he] at h
      exact (Except.ok.inj h).symm

/-- A repository with an ignore file and a script that are not UTF-8, a manifest that is malformed,
another one beside a style config, and a link to a script. -/
def roughDisk : Disk where
  tree := .directory [("r", .directory [
    (".wheelscanignore", .file [0xff]),
    ("a.mjs", .file (0xff :: Utf8.encode "import './b.mjs'; import './lost'".toList)),
    ("b.mjs", .link "web/tailwind.config.mjs"),
    ("package.json", .file (Utf8.encode "[1".toList)),
    ("web", .directory [
      ("package.json", .file (Utf8.encode "\x7b\x7d".toList)),
      ("tailwind.config.mjs", .file (Utf8.encode "'#abc'".toList))])])]

/-- A script that imports the root of the file system. -/
def rootImportDisk : Disk where
  tree := .directory [("r", .directory [("a.ts", .file (Utf8.encode "import '../..'".toList))])]

end RepoSurvey.Survey
