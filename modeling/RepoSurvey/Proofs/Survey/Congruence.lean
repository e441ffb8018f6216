import RepoSurvey.Proofs.Import.Agreement
import RepoSurvey.Proofs.Survey.Detections

/-!
# What a survey reads

For every part of a survey, what it asks of the disk: where two disks give the same answers, the
part is the same on both.

* `Disk.readWithin?`: the text of a file that is not too long;
* `Skip.load_congr`: the ignore file is looked for and read;
* `Detector.workspaceOf_congr`: lockfiles are looked for;
* `Survey.detectAll_congr`, `Import.ofFile_congr`, `Organization.contents_congr`: sources are read
  if they are not too long;
* `Design.analyze_congr`: what is beside workspaces is looked for and read;
* `Import.graph_congr`, `Organization.analyze_congr`: the targets of imports are looked for.
-/

namespace RepoSurvey

variable {disk disk' : Disk} {root : Path}

/-- The text of a file, if it can be read and has at most `limit` characters. -/
def Disk.readWithin? (disk : Disk) (limit : Int) (path : Path) : Option (List Char) :=
  (disk.readLenient? path).bind fun text => if text.length ≤ limit then some text else none

theorem Disk.readWithin?_congr {path : Path}
    (h : disk.readLenient? path = disk'.readLenient? path) (limit : Int) :
    disk.readWithin? limit path = disk'.readWithin? limit path := by
  rw [readWithin?, readWithin?, h]

theorem Skip.load_congr
    (hfile : disk.isFile (root.child ignoreFile) = disk'.isFile (root.child ignoreFile))
    (hread : disk.readStrict? (root.child ignoreFile) = disk'.readStrict? (root.child ignoreFile))
    (extra : NameSet) : load disk root extra = load disk' root extra := by
  rw [load, load, ofRepository, ofRepository, hfile, hread]

/-! ## Manifests -/

theorem Detector.readable?_congr {path : Path}
    (h : (Manifest.ofFileName? path.name).isSome = true →
      disk.readStrict? path = disk'.readStrict? path) :
    readable? disk path = readable? disk' path := by
  unfold readable?
  cases hkind : Manifest.ofFileName? path.name with
  | none => rfl
  | some kind => rw [h (by rw [hkind]; rfl)]

theorem Detector.workspaceOf_congr (hstack : disk.stack = disk'.stack) {directory : Path}
    (h : ∀ name ∈ Manifest.lockfiles.names,
      disk.isFile (directory.child name) = disk'.isFile (directory.child name))
    (m : Manifest) (text : List Char) :
    workspaceOf disk root directory m text = workspaceOf disk' root directory m text := by
  have hmanager : managerOf disk directory m = managerOf disk' directory m := by
    cases m with
    | packageJson =>
      rw [managerOf, managerOf, Manifest.nodeManager, Manifest.nodeManager,
        Disk.firstFile?_congr h]
    | pyproject => rfl
    | cargo => rfl
    | goMod => rfl
  rw [workspaceOf, workspaceOf, hmanager, hstack]

/-! ## Sources -/

theorem Survey.detectFile_eq (disk : Disk) (rules : List Rule) (place : Path) (file : String)
    (radius limit : Int) : detectFile disk rules place file radius limit
      = ((disk.readWithin? limit place).map fun text =>
          Catalog.detect rules file text radius limit).getD (.ok []) := by
  unfold detectFile Disk.readWithin?
  cases disk.readLenient? place with
  | none => rfl
  | some text =>
    by_cases hshort : text.length ≤ limit
    · simp [hshort]
    · have hlong : text.length > limit := by omega
      simp [hshort, Catalog.detect, hlong]

theorem Survey.detectAll_congr {c : Config} {files : List WalkEntry}
    (h : ∀ e ∈ files, disk.readWithin? (c.fileSize : Nat) (Path.below root e.path)
      = disk'.readWithin? (c.fileSize : Nat) (Path.below root e.path)) :
    detectAll disk root c files = detectAll disk' root c files := by
  have hsearch : files.mapM (searchFile disk root c) = files.mapM (searchFile disk' root c) := by
    refine mapM_congr fun e he => ?_
    rw [searchFile, searchFile, detectFile_eq, detectFile_eq, h e he]
  rw [detectAll_eq_mapM, detectAll_eq_mapM, hsearch]

theorem Import.ofFile_eq_readWithin? (disk : Disk) (path : Path) (limit : Int) :
    ofFile disk path limit = ((disk.readWithin? limit path).map literals).getD [] := by
  unfold ofFile Disk.readWithin?
  cases disk.readLenient? path with
  | none => rfl
  | some text =>
    by_cases hshort : text.length ≤ limit
    · simp [hshort]
    · have hlong : text.length > limit := by omega
      simp [hshort, hlong]

theorem Import.ofFile_congr {path : Path} {limit : Int}
    (h : disk.readWithin? limit path = disk'.readWithin? limit path) :
    ofFile disk path limit = ofFile disk' path limit := by
  rw [ofFile_eq_readWithin?, ofFile_eq_readWithin?, h]

/-! ## The design system -/

namespace Design

/-- What is beside a workspace is the same on two disks: its package manifest is read alike, with as
much room on the stack, and its style configs are looked for and read alike. -/
structure BesideAlike (disk disk' : Disk) (root : Path) (workspace : String) : Prop where
  stack : disk.stack = disk'.stack
  package : disk.readStrict? ((placeOf root workspace).child "package.json")
    = disk'.readStrict? ((placeOf root workspace).child "package.json")
  isFile : ∀ name ∈ styleConfigNames, disk.isFile ((placeOf root workspace).child name)
    = disk'.isFile ((placeOf root workspace).child name)
  style : ∀ name ∈ styleConfigNames,
    disk.readLenient? (placeOf root ((Path.ofText workspace).child name).text)
      = disk'.readLenient? (placeOf root ((Path.ofText workspace).child name).text)

theorem packageName?_congr {workspace : String} (h : BesideAlike disk disk' root workspace) :
    Manifest.packageName? disk (placeOf root workspace)
      = Manifest.packageName? disk' (placeOf root workspace) := by
  rw [Manifest.packageName?, Manifest.packageName?, h.package, h.stack]

theorem namedAmong_congr {name : String} {targets : List String}
    (h : ∀ t ∈ targets, BesideAlike disk disk' root t) :
    namedAmong disk root name targets = namedAmong disk' root name targets := by
  induction targets with
  | nil => rfl
  | cons target rest ih =>
    obtain ⟨htarget, hrest⟩ := List.forall_mem_cons.mp h
    rw [namedAmong, namedAmong, packageName?_congr htarget, ih hrest]

theorem violations_congr {workspaces : List Workspace}
    (h : ∀ w ∈ workspaces, BesideAlike disk disk' root w.root) :
    violations disk root (Layers.of workspaces) workspaces
      = violations disk' root (Layers.of workspaces) workspaces := by
  have hall : workspaces.mapM (violationsOf disk root (Layers.of workspaces))
      = workspaces.mapM (violationsOf disk' root (Layers.of workspaces)) := by
    refine mapM_congr fun w _ => ?_
    rw [violationsOf, violationsOf]
    cases Layer.ofRoot? w.root with
    | none => rfl
    | some layer =>
      have htargets : ∀ t ∈ forbidden (Layers.of workspaces) layer,
          BesideAlike disk disk' root t := by
        intro t ht
        obtain ⟨other, hother, rfl⟩ := exists_root_of_mem_forbidden ht
        exact h other hother
      dsimp only
      rw [mapM_congr fun dependency _ => namedAmong_congr htargets]
  rw [violations, violations, hall]

theorem styleConfigText?_congr {workspace : String} (h : BesideAlike disk disk' root workspace) :
    styleConfigText? disk root workspace = styleConfigText? disk' root workspace := by
  have hfirst := Disk.firstFile?_congr h.isFile
  have hconfig : styleConfig? disk root workspace = styleConfig? disk' root workspace := by
    rw [styleConfig?, styleConfig?]
    exact bind_eq_bind hfirst fun _ _ => rfl
  refine bind_eq_bind hconfig fun config hfound => ?_
  cases config with
  | none => rfl
  | some config =>
    obtain ⟨found, hfile, heq⟩ := bind_eq_ok_iff.mp hfound
    obtain ⟨name, rfl, rfl⟩ := Option.map_eq_some_iff.mp (Except.ok.inj heq)
    have hname := (Disk.firstFile?_eq_some hfile).1
    rw [Option.bind_some, Option.bind_some, h.style name hname]

theorem styleFindings_congr {isFault : List Char → Bool} {report : String → String → Finding}
    {roots : List String} (h : ∀ w ∈ roots, BesideAlike disk disk' root w) :
    styleFindings disk root isFault report roots
      = styleFindings disk' root isFault report roots := by
  induction roots with
  | nil => rfl
  | cons workspace rest ih =>
    obtain ⟨hworkspace, hrest⟩ := List.forall_mem_cons.mp h
    rw [styleFindings, styleFindings, styleConfigText?_congr hworkspace, ih hrest]

theorem analyze_congr {workspaces : List Workspace}
    (h : ∀ w ∈ workspaces, BesideAlike disk disk' root w.root) :
    analyze disk root workspaces = analyze disk' root workspaces := by
  have hpresets : presetFindings disk root (Layers.of workspaces)
      = presetFindings disk' root (Layers.of workspaces) := by
    rw [presetFindings, presetFindings, styleFindings_congr fun w hw => ?_]
    obtain ⟨other, hother, rfl⟩ := mem_rootsIn hw
    exact h other hother
  have hcolors : colorFindings disk root workspaces = colorFindings disk' root workspaces := by
    rw [colorFindings, colorFindings, styleFindings_congr (List.forall_mem_map.mpr h)]
  rw [analyze, analyze, violations_congr h, hpresets, hcolors]

end Design

/-! ## Imports -/

namespace Import

theorem resolve_congr {importer : Path} {literal : String}
    (hscript : SourceFile.isScript (targetOf importer literal).name = true →
      disk.isFile (targetOf importer literal) = disk'.isFile (targetOf importer literal))
    (hother : (targetOf importer literal).segments ≠ [] →
      ∀ p ∈ candidates (targetOf importer literal), disk.isFile p = disk'.isFile p) :
    resolve disk importer literal = resolve disk' importer literal := by
  unfold resolve
  dsimp only
  split
  · rename_i hyes
    exact firstThat_congr (List.forall_mem_singleton.mpr (hscript hyes))
  · split
    · rfl
    · rename_i hsegments
      exact firstThat_congr (hother fun hnil => hsegments (by rw [hnil]; rfl))

theorem graph_congr {files : List Path} {limit : Int}
    (hread : ∀ p ∈ files, disk.readWithin? limit p = disk'.readWithin? limit p)
    (hresolve : ∀ p ∈ files, ∀ literal, resolve disk p literal = resolve disk' p literal) :
    graph disk files limit = graph disk' files limit := by
  have htargets : files.mapM (targets disk limit) = files.mapM (targets disk' limit) := by
    refine mapM_congr fun p hp => ?_
    rw [targets, targets, ofFile_congr (hread p hp),
      mapM_congr fun literal _ => hresolve p hp literal]
  rw [graph, graph, htargets]

end Import

/-! ## The organization -/

namespace Organization

theorem contents_eq_readWithin? (disk : Disk) (root : Path) (i : Inventory) (limit : Int) :
    contents disk root i limit = i.files.filterMap fun path =>
      (disk.readWithin? limit (Path.below root path)).map fun text => (path, text) := by
  refine List.filterMap_congr fun path _ => ?_
  unfold Disk.readWithin?
  cases disk.readLenient? (Path.below root path) with
  | none => rfl
  | some text =>
    by_cases hshort : text.length ≤ limit
    · simp [hshort]
    · simp [hshort]

theorem contents_congr {i : Inventory} {limit : Int}
    (h : ∀ path ∈ i.files, disk.readWithin? limit (Path.below root path)
      = disk'.readWithin? limit (Path.below root path)) :
    contents disk root i limit = contents disk' root i limit := by
  rw [contents_eq_readWithin?, contents_eq_readWithin?]
  exact List.filterMap_congr fun path hpath => by rw [h path hpath]

theorem cycles_congr {i : Inventory} {limit : Int}
    (hread : ∀ path ∈ i.files, disk.readWithin? limit (Path.below root path)
      = disk'.readWithin? limit (Path.below root path))
    (hresolve : ∀ path ∈ i.files, ∀ literal, Import.resolve disk (Path.below root path) literal
      = Import.resolve disk' (Path.below root path) literal) :
    cycles disk root i limit = cycles disk' root i limit := by
  rw [cycles, cycles, Import.graph_congr (List.forall_mem_map.mpr hread)
    (List.forall_mem_map.mpr hresolve)]

theorem analyze_congr {c : Config} {skip : NameSet}
    (hinventory : Inventory.collect disk root (NameSet.union skip c.skipDirs)
      = Inventory.collect disk' root (NameSet.union skip c.skipDirs))
    (hread : ∀ path ∈ scripts disk root c skip,
      disk.readWithin? (c.fileSize : Nat) (Path.below root path)
        = disk'.readWithin? (c.fileSize : Nat) (Path.below root path))
    (hresolve : ∀ path ∈ scripts disk root c skip, ∀ literal,
      Import.resolve disk (Path.below root path) literal
        = Import.resolve disk' (Path.below root path) literal) :
    analyze disk root c skip = analyze disk' root c skip := by
  rw [analyze, analyze, ← hinventory, cycles_congr hread hresolve, contents_congr hread]

end Organization

end RepoSurvey
