import RepoSurvey.Proofs.Survey.Places

/-!
# The workspaces of a survey

Every manifest of the walk that can be read gives one workspace, in the order of the walk.

* `Survey.manifestFiles`: the manifests of a walk that can be read;
* `Survey.Describes`: a workspace says of a manifest what it should;
* `Survey.forall₂_describes`: the workspaces describe the manifests, one by one;
* `Survey.workspaces_of_run`: the workspaces of a result.
-/

namespace RepoSurvey.Survey

variable {disk : Disk} {skip : NameSet} {place : List String} {c : Config}

/-- The files of a walk that have the name of a manifest and are readable as UTF-8. -/
def manifestFiles (disk : Disk) (root : Path) (skip : NameSet) : List WalkEntry :=
  (Walk.files disk root skip).filter fun e =>
    (Manifest.all.map Manifest.fileName).contains e.name
      && (disk.readStrict? (Path.below root e.path)).isSome

/-- A workspace is that of a manifest of kind `m` that reads `text`. -/
structure Describes (disk : Disk) (root : Path) (e : WalkEntry) (m : Manifest) (text : List Char)
    (w : Workspace) : Prop where
  name : e.name = m.fileName
  read : disk.readStrict? (Path.below root e.path) = some text
  directory : w.root = (Path.relative e.path.dropLast).text
  language : w.language = m.language
  manager : m.ManagedBy disk (Path.below root e.path.dropLast) w.packageManager
  dependencies : m.dependencies disk.stack text = .ok w.dependencies

/-! ## Manifests of the walk -/

theorem mem_entries_of_mem_manifestFiles {root : Path} {e : WalkEntry}
    (he : e ∈ manifestFiles disk root skip) : e ∈ Walk.entries disk root skip :=
  List.mem_of_mem_filter (List.mem_of_mem_filter he)

/-- The manifests that are beside something are visited. -/
theorem forall₂_visited {root : Path} {R : WalkEntry → Workspace → Prop} {ws : List Workspace}
    (h : List.Forall₂ R (manifestFiles disk root skip) ws) :
    List.Forall₂ (fun e w => e ∈ Walk.entries disk root skip ∧ R e w)
      (manifestFiles disk root skip) ws :=
  (List.forall₂_and_left _ _).mpr ⟨fun _ he => mem_entries_of_mem_manifestFiles he, h⟩

theorem path_eq_of_mem_entries (hdisk : disk.WellFormed) {root : Path} {e : WalkEntry}
    (he : e ∈ Walk.entries disk root skip) : e.path = e.path.dropLast ++ [e.name] := by
  obtain ⟨hne, _⟩ := Walk.proper_of_mem_entries hdisk.named he
  rw [WalkEntry.name, List.getLastD_eq_getLast?, List.getLast?_eq_some_getLast hne]
  exact (List.dropLast_append_getLast hne).symm

theorem below_of_mem_entries (hdisk : disk.WellFormed) {root : Path} {e : WalkEntry}
    (he : e ∈ Walk.entries disk root skip) :
    (Path.below root e.path).parent = Path.below root e.path.dropLast
      ∧ (Path.below root e.path).name = e.name := by
  have hconcat := below_concat root e.path.dropLast e.name
  rw [← path_eq_of_mem_entries hdisk he] at hconcat
  exact hconcat

/-- The files that the detector takes for manifests are those of the walk. -/
theorem filter_readable? (hdisk : disk.WellFormed) (root : Path) (skip : NameSet) :
    (Walk.files disk root skip).filter (fun e =>
        (Detector.readable? disk (Path.below root e.path)).isSome)
      = manifestFiles disk root skip := by
  refine List.filter_congr fun e he => ?_
  have hname := (below_of_mem_entries hdisk (List.mem_of_mem_filter he)).2
  rw [Detector.isSome_readable?, hname]

/-- The workspace that is made of a manifest describes it. -/
theorem describes_of_workspaceOf (hdisk : disk.WellFormed) {e : WalkEntry}
    (he : e ∈ Walk.entries disk ⟨true, place⟩ skip) {m : FoundManifest} {w : Workspace}
    (hm : Detector.readable? disk (Path.below ⟨true, place⟩ e.path) = some m)
    (hw : Detector.workspaceOf disk ⟨true, place⟩ m.directory m.kind m.text = .ok w) :
    Describes disk ⟨true, place⟩ e m.kind m.text w := by
  obtain ⟨hkind, hdirectory, hread⟩ := Detector.readable?_eq_some.mp hm
  obtain ⟨hparent, hname⟩ := below_of_mem_entries hdisk he
  rw [hname] at hkind
  rw [hparent] at hdirectory
  obtain ⟨manager, hmanager, hw⟩ := bind_eq_ok_iff.mp hw
  obtain ⟨dependencies, hdependencies, hw⟩ := bind_eq_ok_iff.mp hw
  cases hw
  rw [← hdirectory] at hmanager ⊢
  refine ⟨Manifest.ofFileName?_eq_some_iff.mp hkind, hread, ?_, rfl,
    Detector.managedBy_of_managerOf hmanager, hdependencies⟩
  rw [Path.below, List.drop_left]

/-- The workspaces that are made describe the manifests of the walk, one by one. -/
theorem forall₂_describes (hdisk : disk.WellFormed) {ws : List Workspace}
    (h : made disk ⟨true, place⟩ skip = .ok ws) :
    List.Forall₂ (fun e w => ∃ m text, Describes disk ⟨true, place⟩ e m text w)
      (manifestFiles disk ⟨true, place⟩ skip) ws := by
  rw [made, manifests, Detector.readable, filePlaces, List.filterMap_map] at h
  have hmade := forall₂_of_mapM_filterMap h
  have hfiles := filter_readable? hdisk ⟨true, place⟩ skip
  rw [Walk.files] at hfiles
  simp only [Function.comp_apply] at hmade
  rw [hfiles] at hmade
  refine (forall₂_visited hmade).imp ?_
  rintro e w ⟨he, m, hm, hw⟩
  exact ⟨m.kind, m.text, describes_of_workspaceOf hdisk he hm hw⟩

/-! ## No two alike -/

/-- Two manifests of a kind in a directory are one. -/
theorem path_eq_of_describes (hdisk : disk.WellFormed) {root : Path} {e d : WalkEntry}
    (he : e ∈ Walk.entries disk root skip) (hd : d ∈ Walk.entries disk root skip)
    {m n : Manifest} {text text' : List Char} {w v : Workspace}
    (hw : Describes disk root e m text w) (hv : Describes disk root d n text' v)
    (hroot : w.root = v.root) (hlanguage : w.language = v.language) : e.path = d.path := by
  have hproper : ∀ a ∈ Walk.entries disk root skip, ∀ s ∈ a.path.dropLast, Name.Proper s := by
    intro a ha s hs
    have hentry := (Walk.proper_of_mem_entries hdisk.named ha).2
    exact (hentry s (List.dropLast_subset _ hs)).toProper
  have hdirectory : e.path.dropLast = d.path.dropLast := by
    refine Path.text_relative_inj (hproper e he) (hproper d hd) ?_
    rw [← hw.directory, ← hv.directory, hroot]
  have hkind : m = n := by
    apply Manifest.language_injective
    rw [← hw.language, ← hv.language, hlanguage]
  have hname : e.name = d.name := by rw [hw.name, hv.name, hkind]
  rw [path_eq_of_mem_entries hdisk he, path_eq_of_mem_entries hdisk hd, hdirectory, hname]

theorem nodup_workspaces (hdisk : disk.WellFormed) {ws : List Workspace}
    (h : List.Forall₂ (fun e w => ∃ m text, Describes disk ⟨true, place⟩ e m text w)
      (manifestFiles disk ⟨true, place⟩ skip) ws) :
    (ws.map fun w => (w.root, w.language)).Nodup := by
  have hpaths : ((manifestFiles disk ⟨true, place⟩ skip).map (·.path)).Nodup := by
    have hentries := Walk.nodup_entries hdisk.distinct ⟨true, place⟩ skip
    exact hentries.sublist ((List.filter_sublist.trans List.filter_sublist).map _)
  refine nodup_map_of_forall₂ (forall₂_visited h) hpaths ?_
  rintro e d w v ⟨he, m, text, hw⟩ ⟨hd, n, text', hv⟩ hsame
  obtain ⟨hroot, hlanguage⟩ := Prod.mk.inj hsame
  exact path_eq_of_describes hdisk he hd hw hv hroot hlanguage

/-! ## All together -/

/-- What the workspaces of a result have: they describe the manifests of the walk in order, or are
the unknown one if there are none. No two have both the directory and the language in common. -/
structure ListsWorkspaces (disk : Disk) (root : Path) (skip : NameSet) (ws : List Workspace) :
    Prop where
  fallback : manifestFiles disk root skip = [] → ws = [.unknown]
  listed : manifestFiles disk root skip ≠ [] →
    List.Forall₂ (fun e w => ∃ m text, Describes disk root e m text w)
      (manifestFiles disk root skip) ws
  distinct : (ws.map fun w => (w.root, w.language)).Nodup

theorem listsWorkspaces_of_visitAll (hdisk : disk.WellFormed)
    {r : Detector × List (Option Workspace)}
    (h : Detector.initial.visitAll disk ⟨true, place⟩
      (filePlaces ⟨true, place⟩ (Walk.entries disk ⟨true, place⟩ skip)) = .ok r) :
    ListsWorkspaces disk ⟨true, place⟩ skip r.1.result := by
  have hall := forall₂_describes hdisk (made_of_visitAll hdisk h)
  have hdistinct := nodup_workspaces hdisk hall
  unfold Detector.result
  cases hws : r.1.workspaces with
  | nil =>
    rw [hws] at hall
    have hfiles := List.forall₂_nil_right_iff.mp hall
    exact ⟨fun _ => rfl, fun hne => absurd hfiles hne, List.nodup_singleton _⟩
  | cons w ws =>
    rw [hws] at hall hdistinct
    refine ⟨fun hfiles => ?_, fun _ => hall, hdistinct⟩
    rw [hfiles] at hall
    cases hall

/-- A result lists one workspace for every manifest of the walk that can be read, in the order of
the walk. -/
theorem workspaces_of_run (hdisk : disk.WellFormed) {path : Path} {c : Config} {r : SurveyResult}
    (hr : run disk path c = .ok r) :
    ∃ root, disk.resolve path = .ok root
      ∧ ((disk.directory? root = none ∧ r.workspaces = [])
        ∨ ∃ skip, Skip.load disk root c.skipDirs = .ok skip
          ∧ ListsWorkspaces disk root skip r.workspaces) := by
  obtain ⟨root, hroot, ⟨hnone, rfl⟩ | ⟨place, rfl, _, hr⟩⟩ := run_eq_ok hdisk hr
  · exact ⟨root, hroot, Or.inl ⟨hnone, rfl⟩⟩
  · obtain ⟨skip, detector, _, _, hskip, hdetector, _, hworkspaces, _⟩ := ofDirectory_eq_ok hr
    rw [hworkspaces]
    exact ⟨_, hroot, Or.inr ⟨skip, hskip, listsWorkspaces_of_visitAll hdisk hdetector⟩⟩

/-- A repository with a manifest that is not UTF-8, one in a directory that is passed over, and two
in one directory, of which one is a link; two lockfiles are at the top. -/
def severalManifestsDisk : Disk where
  tree := .directory [("r", .directory [
    ("Cargo.toml", .file [0xff]),
    ("bun.lock", .file []),
    ("package.json", .file (Utf8.encode "\x7b\x7d".toList)),
    ("target", .directory [("go.mod", .file [])]),
    ("web", .directory [
      ("go.mod", .file (Utf8.encode "module m\nrequire x v1".toList)),
      ("package.json", .link "../package.json")]),
    ("yarn.lock", .file [])])]

theorem workspaces_of_run_several : severalManifestsDisk.WellFormed
    ∧ ∃ r, run severalManifestsDisk ⟨true, ["r"]⟩ {} = .ok r
      ∧ r.workspaces.map (fun w => (w.root, w.packageManager, w.language))
        = [(".", "yarn", "typescript"), ("web", "go", "go"), ("web", "npm", "typescript")]
      ∧ ∃ root, severalManifestsDisk.resolve ⟨true, ["r"]⟩ = .ok root
        ∧ ∃ skip, Skip.load severalManifestsDisk root [] = .ok skip
          ∧ ListsWorkspaces severalManifestsDisk root skip r.workspaces := by
  have hdisk : severalManifestsDisk.WellFormed := by decide +kernel
  have hlisted : (run severalManifestsDisk ⟨true, ["r"]⟩ {}).toOption.map (fun r =>
      r.workspaces.map fun w => (w.root, w.packageManager, w.language))
        = some [(".", "yarn", "typescript"), ("web", "go", "go"), ("web", "npm", "typescript")] :=
      by decide +kernel
  obtain ⟨r, hr, hlist⟩ := exists_ok_of_map_toOption hlisted
  refine ⟨hdisk, r, hr, hlist, ?_⟩
  obtain ⟨root, hroot, ⟨_, hempty⟩ | hskip⟩ := workspaces_of_run hdisk hr
  · rw [hempty] at hlist
    cases hlist
  · exact ⟨root, hroot, hskip⟩

end RepoSurvey.Survey
