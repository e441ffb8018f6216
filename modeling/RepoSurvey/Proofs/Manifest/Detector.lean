import RepoSurvey.Manifest.Detector
import RepoSurvey.Proofs.Disk.Lookup
import RepoSurvey.Proofs.Traversal

/-!
# What a detector collects

* `FoundManifest`, `Detector.readable`: the manifests among some files that can be read;
* `Manifest.ManagedBy`, `Detector.managedBy_of_managerOf`: the package manager of a manifest;
* `Detector.nodup_names_of_mem_result`: the dependencies of a workspace have different names;
* `Detector.visitAll_workspaces`: offered different files, a detector makes a workspace of each
  of them, in order;
* `Detector.exists_workspaceOf_ok_iff`: a workspace can be made of a manifest unless a whole number
  in it has too many digits, it nests too deeply or the lockfile of its directory cannot be looked
  for.
-/

namespace RepoSurvey

/-- A manifest that can be read, by its directory, kind and text. -/
structure FoundManifest where
  directory : Path
  kind : Manifest
  text : List Char

/-- A reader does not go beyond a limit: of the digits of a whole number, or of the depth. -/
def ReadWithinLimits {α : Type} (outcome : Except ReadError α) : Prop :=
  ∀ e, outcome = .error e → e = .malformed

/-- Reading the manifest for its dependencies does not go beyond a limit. -/
def Manifest.WithinLimits (stack : Stack) (text : List Char) : Manifest → Prop
  | .packageJson => ReadWithinLimits (Json.read stack.dependencies text)
  | .pyproject => ReadWithinLimits (Toml.read stack.tables text)
  | .cargo => ReadWithinLimits (Toml.read stack.tables text)
  | .goMod => True

namespace Manifest

theorem exists_orNothing_ok_iff {α : Type} {nothing : α} {x : Except ReadError α} :
    (∃ a, orNothing nothing x = .ok a) ↔ ReadWithinLimits x := by
  unfold ReadWithinLimits
  cases x with
  | ok a => simp [orNothing]
  | error e => cases e <;> simp [orNothing]

theorem exists_dependencies_ok_iff {stack : Stack} {m : Manifest} {text : List Char} :
    (∃ deps, m.dependencies stack text = .ok deps) ↔ m.WithinLimits stack text := by
  cases m with
  | packageJson => exact exists_bind_pure_ok_iff.trans exists_orNothing_ok_iff
  | pyproject => exact exists_bind_pure_ok_iff.trans exists_orNothing_ok_iff
  | cargo => exact exists_bind_pure_ok_iff.trans exists_orNothing_ok_iff
  | goMod => exact iff_of_true ⟨_, rfl⟩ trivial

theorem ofFileName?_eq_some_iff {name : String} {m : Manifest} :
    ofFileName? name = some m ↔ name = m.fileName := by
  constructor
  · intro h
    have hname := List.find?_some h
    exact (beq_iff_eq.mp hname).symm
  · rintro rfl
    exact ofFileName?_fileName m

theorem isSome_ofFileName? (name : String) : (ofFileName? name).isSome
    = (all.map fileName).contains name := by
  rw [Bool.eq_iff_iff, ofFileName?, List.find?_isSome, List.contains_iff_mem, List.mem_map]
  simp only [beq_iff_eq]

theorem language_injective : Function.Injective language := by
  intro m n h
  cases m <;> cases n <;> first | rfl | exact absurd h (by decide)

/-- No name is declared twice; a later declaration takes the place of an earlier one. -/
theorem nodup_names_dependencies {stack : Stack} {m : Manifest} {text : List Char}
    {deps : Dependencies} (h : m.dependencies stack text = .ok deps) : deps.names.Nodup := by
  have hempty : (Table.names ([] : Dependencies)).Nodup := List.nodup_nil
  have hentries : ∀ entries : List (String × String), (Table.ofEntries entries).names.Nodup :=
    fun entries => Table.nodup_names_putAll hempty entries
  cases m with
  | packageJson =>
    obtain ⟨_, _, h⟩ := bind_eq_ok_iff.mp h
    cases h
    exact Table.nodup_names_putAll (hentries _) _
  | pyproject =>
    obtain ⟨_, _, h⟩ := bind_eq_ok_iff.mp h
    cases h
    exact Table.nodup_names_putAll (Table.nodup_names_putAll (hentries _) _) _
  | cargo =>
    obtain ⟨_, _, h⟩ := bind_eq_ok_iff.mp h
    cases h
    exact hentries _
  | goMod =>
    cases h
    exact Table.nodup_names_putAll (hentries _) _

/-- Reading the manifest of a package for its name, if it can be read, does not go beyond a
limit. -/
def NameReadable (disk : Disk) (directory : Path) : Prop :=
  ∀ text, disk.readStrict? (directory.child "package.json") = some text →
    ReadWithinLimits (Json.read disk.stack.name text)

theorem exists_packageName?_ok_iff {disk : Disk} {directory : Path} :
    (∃ name, packageName? disk directory = .ok name) ↔ NameReadable disk directory := by
  unfold packageName? NameReadable
  cases disk.readStrict? (directory.child "package.json") with
  | none => exact iff_of_true ⟨none, rfl⟩ fun _ h => (by cases h)
  | some text =>
    refine exists_bind_pure_ok_iff.trans (exists_orNothing_ok_iff.trans ⟨fun h _ heq => ?_, ?_⟩)
    · cases heq
      exact h
    · exact fun h => h text rfl

end Manifest

/-- The package manager of a manifest in a directory: the first lockfile that is there decides it
for the kind that has lockfiles, and the kind for all others. -/
inductive Manifest.ManagedBy (disk : Disk) (directory : Path) : Manifest → String → Prop
  | lockfile {before after : Table String} {name manager : String} :
      Manifest.lockfiles = before ++ (name, manager) :: after →
      (∃ bytes, disk.lookup (directory.child name) = .file bytes) →
      (∀ other ∈ before.names, ¬ ∃ bytes, disk.lookup (directory.child other) = .file bytes) →
      ManagedBy disk directory .packageJson manager
  | unlocked :
      (∀ name ∈ Manifest.lockfiles.names,
        ¬ ∃ bytes, disk.lookup (directory.child name) = .file bytes) →
      ManagedBy disk directory .packageJson Manifest.defaultManager
  | fixed {m : Manifest} : m ≠ .packageJson → ManagedBy disk directory m m.packageManager

namespace Detector

variable {disk : Disk} {root : Path}

theorem managedBy_of_nodeManager {directory : Path} {manager : String}
    (h : Manifest.nodeManager disk directory = .ok manager) :
    Manifest.packageJson.ManagedBy disk directory manager := by
  obtain ⟨found, hfound, h⟩ := bind_eq_ok_iff.mp h
  cases h
  cases found with
  | none => exact .unlocked (Disk.firstFile?_eq_none hfound)
  | some name =>
    obtain ⟨before, after, hnames, hfile, hbefore⟩ := Disk.firstFile?_first hfound
    obtain ⟨front, rest, hlockfiles, rfl, hrest⟩ := List.map_eq_append_iff.mp hnames
    obtain ⟨lockfile, back, rfl, rfl, _⟩ := List.map_eq_cons_iff.mp hrest
    have hget : Manifest.lockfiles.get? lockfile.1 = some lockfile.2 :=
      Table.get?_eq_some_of_mem (by decide +kernel) (by rw [hlockfiles]; simp)
    rw [Option.bind_some, hget]
    exact .lockfile hlockfiles hfile hbefore

theorem managedBy_of_managerOf {directory : Path} {m : Manifest} {manager : String}
    (h : managerOf disk directory m = .ok manager) : m.ManagedBy disk directory manager := by
  cases m with
  | packageJson => exact managedBy_of_nodeManager h
  | pyproject =>
    cases h
    exact .fixed (by decide)
  | cargo =>
    cases h
    exact .fixed (by decide)
  | goMod =>
    cases h
    exact .fixed (by decide)

/-- The lockfiles of the directory of a manifest, if it is of a kind that has them, can be looked
for. -/
def LockfilesSettle (disk : Disk) (m : FoundManifest) : Prop :=
  m.kind = .packageJson → disk.Settles (Manifest.lockfiles.names.map m.directory.child)

theorem exists_workspaceOf_ok_iff {m : FoundManifest} :
    (∃ w, workspaceOf disk root m.directory m.kind m.text = .ok w)
      ↔ LockfilesSettle disk m ∧ m.kind.WithinLimits disk.stack m.text := by
  have hmanager : (∃ manager, managerOf disk m.directory m.kind = .ok manager)
      ↔ LockfilesSettle disk m := by
    unfold LockfilesSettle
    cases m.kind with
    | packageJson =>
      rw [← Disk.exists_firstFile?_ok_iff]
      exact exists_bind_pure_ok_iff.trans (by simp)
    | pyproject => exact iff_of_true ⟨_, rfl⟩ fun h => (by cases h)
    | cargo => exact iff_of_true ⟨_, rfl⟩ fun h => (by cases h)
    | goMod => exact iff_of_true ⟨_, rfl⟩ fun h => (by cases h)
  rw [← hmanager, ← Manifest.exists_dependencies_ok_iff, workspaceOf, exists_bind_ok_iff]
  constructor
  · rintro ⟨manager, hm, hrest⟩
    exact ⟨⟨manager, hm⟩, exists_bind_pure_ok_iff.mp hrest⟩
  · rintro ⟨⟨manager, hm⟩, hdeps⟩
    exact ⟨manager, hm, exists_bind_pure_ok_iff.mpr hdeps⟩

/-- The manifest that a file is, if it is one that can be read. -/
def readable? (disk : Disk) (path : Path) : Option FoundManifest :=
  (Manifest.ofFileName? path.name).bind fun kind =>
    (disk.readStrict? path).map fun text => ⟨path.parent, kind, text⟩

/-- The manifests among some files that can be read. -/
def readable (disk : Disk) (paths : List Path) : List FoundManifest :=
  paths.filterMap (readable? disk)

theorem readable?_eq_some {path : Path} {m : FoundManifest} : readable? disk path = some m
    ↔ Manifest.ofFileName? path.name = some m.kind ∧ path.parent = m.directory
      ∧ disk.readStrict? path = some m.text := by
  obtain ⟨directory, kind, text⟩ := m
  rw [readable?, Option.bind_eq_some_iff]
  constructor
  · rintro ⟨found, hkind, h⟩
    obtain ⟨read, hread, heq⟩ := Option.map_eq_some_iff.mp h
    cases heq
    exact ⟨hkind, rfl, hread⟩
  · rintro ⟨hkind, rfl, hread⟩
    exact ⟨kind, hkind, by rw [hread]; rfl⟩

theorem isSome_readable? (disk : Disk) (path : Path) : (readable? disk path).isSome
    = ((Manifest.all.map Manifest.fileName).contains path.name
      && (disk.readStrict? path).isSome) := by
  rw [← Manifest.isSome_ofFileName?, readable?]
  cases Manifest.ofFileName? path.name <;> simp

/-- One file that was not offered before. -/
theorem visit_fresh (disk : Disk) (root : Path) {d : Detector} {path : Path}
    (h : (path.parent, path.name) ∉ d.visited) :
    ∃ visited, (∀ key ∈ visited, key = (path.parent, path.name) ∨ key ∈ d.visited)
      ∧ d.visit disk root path = match readable? disk path with
        | none => (⟨visited, d.workspaces⟩, .ok none)
        | some m => match workspaceOf disk root m.directory m.kind m.text with
          | .error e => (⟨visited, d.workspaces⟩, .error e)
          | .ok w => (⟨visited, d.workspaces ++ [w]⟩, .ok (some w)) := by
  unfold visit readable?
  cases hkind : Manifest.ofFileName? path.name with
  | none => exact ⟨d.visited, fun key hkey => Or.inr hkey, rfl⟩
  | some m =>
    have hnew : d.visited.contains (path.parent, path.name) = false := by simpa using h
    refine ⟨(path.parent, path.name) :: d.visited, fun key hkey => List.mem_cons.mp hkey, ?_⟩
    dsimp only [Option.bind_some]
    rw [hnew]
    cases disk.readStrict? path with
    | none => rfl
    | some text =>
      dsimp only [Option.map_some]
      cases workspaceOf disk root path.parent m text <;> rfl

/-- What holds of every workspace that is made holds of those collected, if it did before. -/
theorem forall_mem_visit {P : Workspace → Prop}
    (hmade : ∀ {directory m text w}, workspaceOf disk root directory m text = .ok w → P w)
    {d : Detector} (hd : ∀ w ∈ d.workspaces, P w) (path : Path) :
    ∀ w ∈ (d.visit disk root path).1.workspaces, P w := by
  unfold visit
  split
  · exact hd
  · split
    · exact hd
    · dsimp only
      split
      · exact hd
      · split
        · exact hd
        · rename_i w hw
          exact List.forall_mem_append.mpr ⟨hd, List.forall_mem_singleton.mpr (hmade hw)⟩

theorem forall_mem_visitAll {P : Workspace → Prop}
    (hmade : ∀ {directory m text w}, workspaceOf disk root directory m text = .ok w → P w)
    {d : Detector} (hd : ∀ w ∈ d.workspaces, P w) {paths : List Path}
    {r : Detector × List (Option Workspace)} (h : d.visitAll disk root paths = .ok r) :
    ∀ w ∈ r.1.workspaces, P w := by
  induction paths generalizing d r with
  | nil =>
    cases h
    exact hd
  | cons path rest ih =>
    have hvisit := forall_mem_visit hmade hd path
    rw [visitAll] at h
    generalize d.visit disk root path = visited at h hvisit
    obtain ⟨w, _, h⟩ := bind_eq_ok_iff.mp h
    obtain ⟨r', hr', h⟩ := bind_eq_ok_iff.mp h
    have hrest := ih hvisit hr'
    cases h
    exact hrest

/-- The dependencies of a workspace have different names. -/
theorem nodup_names_of_mem_result {paths : List Path} {r : Detector × List (Option Workspace)}
    (h : initial.visitAll disk root paths = .ok r) {w : Workspace} (hw : w ∈ r.1.result) :
    w.dependencies.names.Nodup := by
  have hall := forall_mem_visitAll (P := fun w => w.dependencies.names.Nodup) (fun hmade => by
    obtain ⟨manager, _, hmade⟩ := bind_eq_ok_iff.mp hmade
    obtain ⟨dependencies, hdependencies, hmade⟩ := bind_eq_ok_iff.mp hmade
    cases hmade
    exact Manifest.nodup_names_dependencies hdependencies) (by simp [initial]) h
  unfold result at hw
  split at hw
  · rw [List.mem_singleton.mp hw]
    exact List.nodup_nil
  · exact hall w hw

/-- The workspaces after going on with the rest of the files. -/
theorem map_visitAll_rest {d : Detector} {paths : List Path} (w : Option Workspace) :
    ((d.visitAll disk root paths) >>= fun r => pure (r.1, w :: r.2) :
        Except SurveyError (Detector × List (Option Workspace))).map (fun r => r.1.workspaces)
      = (d.visitAll disk root paths).map (fun r => r.1.workspaces) := by
  cases d.visitAll disk root paths <;> rfl

/-- Offered files that are all different, a detector makes a workspace of every manifest that can
be read, in the order of the files, up to the first failure. -/
theorem visitAll_workspaces {d : Detector} {paths : List Path}
    (hdistinct : (paths.map fun p => (p.parent, p.name)).Nodup)
    (hfresh : ∀ p ∈ paths, (p.parent, p.name) ∉ d.visited) :
    (d.visitAll disk root paths).map (fun r => r.1.workspaces)
      = ((readable disk paths).mapM fun m => workspaceOf disk root m.directory m.kind m.text).map
          (d.workspaces ++ ·) := by
  induction paths generalizing d with
  | nil =>
    show Except.ok d.workspaces = Except.ok (d.workspaces ++ [])
    rw [List.append_nil]
  | cons path rest ih =>
    obtain ⟨hpath, hdistinct⟩ := List.nodup_cons.mp hdistinct
    obtain ⟨visited, hvisited, hvisit⟩ :=
      visit_fresh disk root (hfresh path List.mem_cons_self)
    have hrest : ∀ p ∈ rest, (p.parent, p.name) ∉ visited := by
      intro p hp hmem
      rcases hvisited _ hmem with heq | hmem
      · exact hpath (List.mem_map.mpr ⟨p, hp, heq⟩)
      · exact hfresh p (List.mem_cons_of_mem _ hp) hmem
    rw [visitAll, hvisit, readable, List.filterMap_cons]
    cases readable? disk path with
    | none =>
      have hih := ih (d := ⟨visited, d.workspaces⟩) hdistinct hrest
      exact (map_visitAll_rest none).trans hih
    | some m =>
      dsimp only
      rw [List.mapM_cons]
      cases workspaceOf disk root m.directory m.kind m.text with
      | error e => rfl
      | ok w =>
        have hih := ih (d := ⟨visited, d.workspaces ++ [w]⟩) hdistinct hrest
        refine (map_visitAll_rest (some w)).trans (hih.trans ?_)
        rw [readable]
        cases (rest.filterMap (readable? disk)).mapM
          fun m => workspaceOf disk root m.directory m.kind m.text with
        | error e => rfl
        | ok ws =>
          show Except.ok (d.workspaces ++ [w] ++ ws) = Except.ok (d.workspaces ++ w :: ws)
          rw [List.append_assoc]
          rfl

end Detector

end RepoSurvey
