import RepoSurvey.Proofs.Survey.Failures

/-!
# What a survey fails with

Everything that can stop the survey of a directory is put in a list, in the order of the walk, and
the survey fails with the first of it.

* `Disk.probeFailures`: what probing some paths in turn meets;
* `Manifest.readFailures`: the limits that a reader goes beyond;
* `Survey.failures`: all that can stop the survey of a directory;
* `Survey.failure?_ofDirectory`: the survey fails with the first of it;
* `Survey.failure?_run`: where the files that are probed for can be looked up, only manifests beyond
  a limit and imports remain.
-/

namespace RepoSurvey

/-! ## Probing -/

namespace Disk

variable {disk : Disk}

/-- What probing some paths for a file meets before it ends: a path of which it cannot be told what
it leads to, if there is no file before it. -/
def probeFailures (disk : Disk) : List Path → List SurveyError
  | [] => []
  | p :: rest =>
    match disk.lookup p with
    | .file _ => []
    | found =>
      match found.error? with
      | some e => [e]
      | none => probeFailures disk rest

theorem probeFailures_eq_nil_iff {paths : List Path} :
    disk.probeFailures paths = [] ↔ disk.Settles paths := by
  induction paths with
  | nil => simp [probeFailures, Settles]
  | cons p rest ih =>
    rw [probeFailures, Settles]
    cases disk.lookup p <;> simp [Found.error?, ih]

instance (disk : Disk) (paths : List Path) : Decidable (disk.Settles paths) :=
  decidable_of_iff _ probeFailures_eq_nil_iff

theorem kind_of_mem_probeFailures {paths : List Path} {e : SurveyError}
    (he : e ∈ disk.probeFailures paths) : e = .nameTooLong ∨ e = .permissionDenied := by
  induction paths with
  | nil => simp [probeFailures] at he
  | cons p rest ih =>
    rw [probeFailures] at he
    cases hp : disk.lookup p with
    | file bytes => simp [hp] at he
    | nameTooLong => exact Or.inl (by simpa [hp, Found.error?] using he)
    | denied => exact Or.inr (by simpa [hp, Found.error?] using he)
    | directory place =>
      rw [hp] at he
      exact ih he
    | absent =>
      rw [hp] at he
      exact ih he
    | tooManyLinks =>
      rw [hp] at he
      exact ih he

/-- One probe, with the rest of the probing after it. -/
theorem failure?_probe {α : Type} {p : Path} {paths : List Path} {found : α}
    {rest : Except SurveyError (Option α)}
    (hrest : failure? rest = (disk.probeFailures paths).head?) :
    failure? (do if ← disk.isFile p then return some found else rest)
      = (disk.probeFailures (p :: paths)).head? := by
  rw [probeFailures]
  unfold isFile
  cases disk.lookup p with
  | file bytes => rfl
  | nameTooLong => rfl
  | denied => rfl
  | directory place => exact hrest
  | absent => exact hrest
  | tooManyLinks => exact hrest

theorem failure?_firstFile? (directory : Path) (names : List String) :
    failure? (disk.firstFile? directory names)
      = (disk.probeFailures (names.map directory.child)).head? := by
  induction names with
  | nil => rfl
  | cons name rest ih => exact failure?_probe ih

end Disk

/-! ## Imports -/

namespace Import

variable {disk : Disk}

/-- What resolving an import meets: the root of the file system has no name to add a suffix to, and
what is probed need not be possible to look up. -/
def resolveFailures (disk : Disk) (importer : Path) (literal : String) : List SurveyError :=
  let target := targetOf importer literal
  if SourceFile.isScript target.name then disk.probeFailures [target]
  else if target.segments = [] then [.namelessTarget]
  else disk.probeFailures (candidates target)

theorem failure?_firstThat (paths : List Path) :
    failure? (firstThat disk.isFile paths) = (disk.probeFailures paths).head? := by
  induction paths with
  | nil => rfl
  | cons p rest ih => exact Disk.failure?_probe ih

theorem failure?_resolve (importer : Path) (literal : String) :
    failure? (resolve disk importer literal) = (resolveFailures disk importer literal).head? := by
  rw [resolve, resolveFailures]
  split
  · exact failure?_firstThat _
  · cases hsegments : (targetOf importer literal).segments with
    | nil => rfl
    | cons s rest =>
      rw [List.isEmpty_cons, if_neg Bool.false_ne_true, if_neg (List.cons_ne_nil s rest)]
      exact failure?_firstThat _

/-- The imports of a file that cannot be resolved, in the order of its literals. -/
def fileFailures (disk : Disk) (limit : Int) (path : Path) : List SurveyError :=
  (ofFile disk path limit).flatMap (resolveFailures disk path)

theorem failure?_graph (limit : Int) (files : List Path) :
    failure? (graph disk files limit) = (files.flatMap (fileFailures disk limit)).head? := by
  have htargets : ∀ path, failure? (targets disk limit path)
      = (fileFailures disk limit path).head? := by
    intro path
    rw [targets, failure?_bind_pure]
    exact failure?_mapM fun literal _ => failure?_resolve path literal
  rw [graph, failure?_bind_pure]
  exact failure?_mapM fun path _ => htargets path

end Import

/-! ## Manifests -/

namespace Manifest

/-- The limit that a reader goes beyond. A text that is malformed before is no failure. -/
def readFailures {α : Type} : Except ReadError α → List SurveyError
  | .ok _ => []
  | .error .malformed => []
  | .error (.tooManyDigits count) => [.tooManyDigits count]
  | .error (.tooDeep task) => [.tooDeep task]

/-- What reading the text of a manifest for its dependencies meets. -/
def limitFailures (stack : Stack) (text : List Char) : Manifest → List SurveyError
  | .packageJson => readFailures (Json.read stack.dependencies text)
  | .pyproject => readFailures (Toml.read stack.tables text)
  | .cargo => readFailures (Toml.read stack.tables text)
  | .goMod => []

/-- What reading the manifest of a package for its name meets. -/
def nameFailures (disk : Disk) (directory : Path) : List SurveyError :=
  match disk.readStrict? (directory.child "package.json") with
  | none => []
  | some text => readFailures (Json.read disk.stack.name text)

theorem failure?_orNothing {α : Type} (nothing : α) (x : Except ReadError α) :
    failure? (orNothing nothing x) = (readFailures x).head? := by
  cases x with
  | ok a => rfl
  | error e => cases e <;> rfl

theorem failure?_dependencies (stack : Stack) (m : Manifest) (text : List Char) :
    failure? (m.dependencies stack text) = (m.limitFailures stack text).head? := by
  cases m with
  | packageJson => exact (failure?_bind_pure _ _).trans (failure?_orNothing _ _)
  | pyproject => exact (failure?_bind_pure _ _).trans (failure?_orNothing _ _)
  | cargo => exact (failure?_bind_pure _ _).trans (failure?_orNothing _ _)
  | goMod => rfl

theorem failure?_packageName? (disk : Disk) (directory : Path) :
    failure? (packageName? disk directory) = (nameFailures disk directory).head? := by
  unfold packageName? nameFailures
  cases disk.readStrict? (directory.child "package.json") with
  | none => rfl
  | some text => exact (failure?_bind_pure _ _).trans (failure?_orNothing _ _)

theorem kind_of_mem_readFailures {α : Type} {x : Except ReadError α} {e : SurveyError}
    (he : e ∈ readFailures x) :
    (∃ count, e = .tooManyDigits count) ∨ ∃ task, e = .tooDeep task := by
  cases x with
  | ok a => simp [readFailures] at he
  | error found =>
    cases found with
    | malformed => simp [readFailures] at he
    | tooManyDigits count => exact Or.inl ⟨count, by simpa [readFailures] using he⟩
    | tooDeep task => exact Or.inr ⟨task, by simpa [readFailures] using he⟩

theorem kind_of_mem_limitFailures {stack : Stack} {m : Manifest} {text : List Char}
    {e : SurveyError} (he : e ∈ m.limitFailures stack text) :
    (∃ count, e = .tooManyDigits count) ∨ ∃ task, e = .tooDeep task := by
  cases m with
  | packageJson => exact kind_of_mem_readFailures he
  | pyproject => exact kind_of_mem_readFailures he
  | cargo => exact kind_of_mem_readFailures he
  | goMod => simp [limitFailures] at he

theorem kind_of_mem_nameFailures {disk : Disk} {directory : Path} {e : SurveyError}
    (he : e ∈ nameFailures disk directory) :
    (∃ count, e = .tooManyDigits count) ∨ ∃ task, e = .tooDeep task := by
  unfold nameFailures at he
  split at he
  · simp at he
  · exact kind_of_mem_readFailures he

end Manifest

namespace FoundManifest

/-- What looking for the lockfiles beside a manifest meets. -/
def lockfileFailures (disk : Disk) (m : FoundManifest) : List SurveyError :=
  if m.kind = .packageJson then
    disk.probeFailures (Manifest.lockfiles.names.map m.directory.child)
  else []

/-- What making a workspace of a manifest meets. -/
def failures (disk : Disk) (m : FoundManifest) : List SurveyError :=
  m.lockfileFailures disk ++ m.kind.limitFailures disk.stack m.text

theorem failure?_workspaceOf {disk : Disk} (root : Path) (m : FoundManifest) :
    failure? (Detector.workspaceOf disk root m.directory m.kind m.text)
      = (m.failures disk).head? := by
  have hmanager : failure? (Detector.managerOf disk m.directory m.kind)
      = (m.lockfileFailures disk).head? := by
    unfold lockfileFailures
    cases m.kind with
    | packageJson => exact (failure?_bind_pure _ _).trans (Disk.failure?_firstFile? _ _)
    | pyproject => rfl
    | cargo => rfl
    | goMod => rfl
  refine failure?_bind hmanager fun manager _ => ?_
  rw [failure?_bind_pure]
  exact Manifest.failure?_dependencies disk.stack m.kind m.text

theorem lockfileFailures_eq_nil_iff {disk : Disk} {m : FoundManifest} :
    m.lockfileFailures disk = [] ↔ Detector.LockfilesSettle disk m := by
  unfold lockfileFailures Detector.LockfilesSettle
  split
  · rename_i hkind
    rw [Disk.probeFailures_eq_nil_iff, forall_prop_of_true hkind]
  · rename_i hkind
    exact iff_of_true rfl fun h => absurd h hkind

end FoundManifest

/-! ## The design system -/

namespace Design

variable {disk : Disk} {root : Path} {workspaces : List Workspace}

/-- What judging the dependencies of a workspace meets: for every dependency the names of all
packages that the workspace may not depend on are read. -/
def dependencyFailures (disk : Disk) (root : Path) (l : Layers) (w : Workspace) :
    List SurveyError :=
  match Layer.ofRoot? w.root with
  | none => []
  | some layer => w.dependencies.flatMap fun _ =>
      (forbidden l layer).flatMap fun target => Manifest.nameFailures disk (placeOf root target)

def violationFailures (disk : Disk) (root : Path) (workspaces : List Workspace) :
    List SurveyError :=
  workspaces.flatMap (dependencyFailures disk root (Layers.of workspaces))

theorem failure?_namedAmong (name : String) (targets : List String) :
    failure? (namedAmong disk root name targets)
      = (targets.flatMap fun t => Manifest.nameFailures disk (placeOf root t)).head? := by
  induction targets with
  | nil => rfl
  | cons target rest ih =>
    rw [namedAmong, List.flatMap_cons]
    refine failure?_bind (Manifest.failure?_packageName? _ _) fun found _ => ?_
    exact (failure?_bind_pure _ _).trans ih

theorem failure?_violations :
    failure? (violations disk root (Layers.of workspaces) workspaces)
      = (violationFailures disk root workspaces).head? := by
  rw [violations, failure?_bind_pure]
  refine failure?_mapM fun w _ => ?_
  unfold violationsOf dependencyFailures
  cases Layer.ofRoot? w.root with
  | none => rfl
  | some layer =>
    refine (failure?_bind_pure _ _).trans (failure?_mapM fun dependency _ => ?_)
    exact failure?_namedAmong dependency.1 _

/-- What looking for the style configs of some workspaces meets. -/
def configFailures (disk : Disk) (root : Path) (roots : List String) : List SurveyError :=
  roots.flatMap fun w => disk.probeFailures (styleConfigNames.map (placeOf root w).child)

/-- The style configs are looked for once for the presets and once for the colours. -/
def styleFailures (disk : Disk) (root : Path) (workspaces : List Workspace) : List SurveyError :=
  let l := Layers.of workspaces
  (if l.config.isEmpty then [] else configFailures disk root l.apps)
    ++ configFailures disk root (workspaces.map Workspace.root)

theorem failure?_styleFindings (isFault : List Char → Bool) (report : String → String → Finding)
    (roots : List String) : failure? (styleFindings disk root isFault report roots)
      = (configFailures disk root roots).head? := by
  induction roots with
  | nil => rfl
  | cons workspace rest ih =>
    rw [styleFindings, configFailures, List.flatMap_cons]
    refine failure?_bind ?_ fun config _ => ?_
    · exact (failure?_bind_pure _ _).trans ((failure?_bind_pure _ _).trans
        (Disk.failure?_firstFile? _ _))
    · rw [← configFailures, ← ih]
      cases config with
      | none => exact failure?_bind_pure _ _
      | some found => exact failure?_bind_pure _ _

theorem failure?_analyze : failure? (analyze disk root workspaces)
    = (violationFailures disk root workspaces ++ styleFailures disk root workspaces).head? := by
  refine failure?_bind failure?_violations fun upward _ => ?_
  refine failure?_bind ?_ fun presets _ => ?_
  · unfold presetFindings
    split
    · rfl
    · exact failure?_styleFindings _ _ _
  · exact (failure?_bind_pure _ _).trans (failure?_styleFindings _ _ _)

theorem configFailures_eq_nil_iff {roots : List String} : configFailures disk root roots = []
    ↔ ∀ w ∈ roots, StyleSettles disk root w := by
  rw [configFailures, List.flatMap_eq_nil_iff]
  exact forall₂_congr fun w _ => Disk.probeFailures_eq_nil_iff

theorem styleFailures_eq_nil_iff : styleFailures disk root workspaces = []
    ↔ ∀ w ∈ workspaces, StyleSettles disk root w.root := by
  rw [styleFailures, List.append_eq_nil_iff, configFailures_eq_nil_iff, List.forall_mem_map,
    and_iff_right_iff_imp]
  intro h
  split
  · rfl
  · refine configFailures_eq_nil_iff.mpr fun workspace hworkspace => ?_
    obtain ⟨w, hw, rfl⟩ := mem_rootsIn hworkspace
    exact h w hw

theorem kind_of_mem_violationFailures {e : SurveyError}
    (he : e ∈ violationFailures disk root workspaces) :
    (∃ count, e = .tooManyDigits count) ∨ ∃ task, e = .tooDeep task := by
  obtain ⟨w, _, he⟩ := List.mem_flatMap.mp he
  unfold dependencyFailures at he
  split at he
  · simp at he
  · obtain ⟨_, _, he⟩ := List.mem_flatMap.mp he
    obtain ⟨target, _, he⟩ := List.mem_flatMap.mp he
    exact Manifest.kind_of_mem_nameFailures he

theorem kind_of_mem_styleFailures {e : SurveyError}
    (he : e ∈ styleFailures disk root workspaces) : e = .nameTooLong ∨ e = .permissionDenied := by
  have hconfig : ∀ {roots : List String}, e ∈ configFailures disk root roots →
      e = .nameTooLong ∨ e = .permissionDenied := by
    intro roots he
    obtain ⟨w, _, he⟩ := List.mem_flatMap.mp he
    exact Disk.kind_of_mem_probeFailures he
  rcases List.mem_append.mp he with hpresets | hcolors
  · split at hpresets
    · simp at hpresets
    · exact hconfig hpresets
  · exact hconfig hcolors

end Design

/-! ## The ignore file and the organization -/

/-- The directories that are passed over: those given, and those of the ignore file if it can be
read. -/
def Skip.known (disk : Disk) (root : Path) (extra : NameSet) : NameSet :=
  NameSet.union extra (((disk.readStrict? (root.child ignoreFile)).map ofIgnoreText).getD [])

theorem Skip.failure?_load {disk : Disk} (root : Path) (extra : NameSet) :
    failure? (load disk root extra) = (disk.probeFailures [root.child ignoreFile]).head? := by
  rw [load, failure?_bind_pure, ofRepository, Disk.probeFailures, Disk.probeFailures]
  unfold Disk.isFile
  cases disk.lookup (root.child ignoreFile) <;> rfl

theorem Skip.eq_known_of_load {disk : Disk} {root : Path} {extra skip : NameSet}
    (h : load disk root extra = .ok skip) : skip = known disk root extra := by
  obtain ⟨found, hfound, hskip⟩ := bind_eq_ok_iff.mp h
  obtain ⟨answer, hanswer, hfound⟩ := bind_eq_ok_iff.mp hfound
  cases hskip
  rw [known]
  cases answer with
  | true =>
    cases hfound
    rfl
  | false =>
    -- what is not a file cannot be read
    have hread : disk.readStrict? (root.child ignoreFile) = none := by
      rw [Disk.readStrict?, Option.map_eq_none_iff, Option.bind_eq_none_iff]
      intro bytes hbytes
      rw [Disk.isFile_eq_true.mpr ⟨_, Disk.bytes?_eq_some.mp hbytes⟩] at hanswer
      cases hanswer
    cases hfound
    rw [hread]
    rfl

/-- The imports of the scripts of a repository that cannot be resolved, script by script. -/
def Organization.importFailures (disk : Disk) (root : Path) (c : Config) (skip : NameSet) :
    List SurveyError :=
  ((scripts disk root c skip).map (Path.below root)).flatMap
    (Import.fileFailures disk (c.fileSize : Nat))

theorem Organization.failure?_analyze {disk : Disk} (root : Path) (c : Config) (skip : NameSet) :
    failure? (analyze disk root c skip) = (importFailures disk root c skip).head? := by
  have hcycles : failure? (cycles disk root (Inventory.collect disk root
      (NameSet.union skip c.skipDirs)) (c.fileSize : Nat))
        = (importFailures disk root c skip).head? := by
    rw [cycles, failure?_bind_pure]
    exact Import.failure?_graph _ _
  rw [← hcycles]
  refine failure?_bind_of_forall_ok fun found hfound => ?_
  obtain ⟨g, _, hg⟩ := bind_eq_ok_iff.mp hfound
  cases hg
  exact exists_bind_pure_ok_iff.mpr
    (Circular.exists_findings_ok fun _ hcycle => (Digraph.cycle_of_mem_cycles hcycle).nonempty)

namespace Survey

variable {disk : Disk} {root : Path} {c : Config} {skip : NameSet}

/-! ## All together -/

/-- The workspaces whose design system is analyzed: all that are made of manifests, where there are
several. -/
def judged (disk : Disk) (root : Path) (skip : NameSet) : List Workspace :=
  match made disk root skip with
  | .ok ws => if 1 < ws.length then ws else []
  | .error _ => []

/-- All that can stop the survey of a directory, in order. -/
def failures (disk : Disk) (root : Path) (c : Config) : List SurveyError :=
  let skip := Skip.known disk root c.skipDirs
  disk.probeFailures [root.child Skip.ignoreFile]
    ++ ((manifests disk root skip).flatMap (FoundManifest.failures disk)
    ++ (Design.violationFailures disk root (judged disk root skip)
    ++ (Design.styleFailures disk root (judged disk root skip)
    ++ Organization.importFailures disk root c skip)))

/-- What the files themselves hold that can stop the survey: first the manifests, in the order of
the walk, as they are read for dependencies and for the names of packages, then the imports of the
scripts. -/
def contentFailures (disk : Disk) (root : Path) (c : Config) : List SurveyError :=
  let skip := Skip.known disk root c.skipDirs
  ((manifests disk root skip).flatMap fun m => m.kind.limitFailures disk.stack m.text)
    ++ (Design.violationFailures disk root (judged disk root skip)
    ++ Organization.importFailures disk root c skip)

/-- The ignore file, the lockfiles and the style configs can be looked for. -/
structure ProbesSettle (disk : Disk) (root : Path) (skip : NameSet) : Prop where
  ignore : disk.Settles [root.child Skip.ignoreFile]
  lockfiles : ∀ m ∈ manifests disk root skip, Detector.LockfilesSettle disk m
  styles : 1 < (manifests disk root skip).length → ∀ m ∈ manifests disk root skip,
    disk.Settles (Design.styleConfigNames.map m.directory.child)

instance (disk : Disk) (m : FoundManifest) : Decidable (Detector.LockfilesSettle disk m) :=
  inferInstanceAs (Decidable (_ → _))

instance (disk : Disk) (root : Path) (skip : NameSet) : Decidable (ProbesSettle disk root skip) :=
  decidable_of_iff (disk.Settles [root.child Skip.ignoreFile]
      ∧ (∀ m ∈ manifests disk root skip, Detector.LockfilesSettle disk m)
      ∧ (1 < (manifests disk root skip).length → ∀ m ∈ manifests disk root skip,
        disk.Settles (Design.styleConfigNames.map m.directory.child)))
    ⟨fun ⟨h₁, h₂, h₃⟩ => ⟨h₁, h₂, h₃⟩, fun h => ⟨h.ignore, h.lockfiles, h.styles⟩⟩

theorem failure?_made :
    failure? (made disk root skip)
      = ((manifests disk root skip).flatMap (FoundManifest.failures disk)).head? :=
  failure?_mapM fun m _ => FoundManifest.failure?_workspaceOf root m

theorem failure?_visitAll (hdisk : disk.WellFormed) (root : Path) (skip : NameSet) :
    failure? (Detector.initial.visitAll disk root (filePlaces root (Walk.entries disk root skip)))
      = ((manifests disk root skip).flatMap (FoundManifest.failures disk)).head? := by
  rw [← failure?_map (fun r => r.1.workspaces), map_visitAll hdisk root skip, failure?_made]

theorem judged_of_made {ws : List Workspace} (hmade : made disk root skip = .ok ws) :
    judged disk root skip = if 1 < ws.length then ws else [] := by
  rw [judged, hmade]

theorem failure?_designOf {d : Detector} (hmade : made disk root skip = .ok d.workspaces) :
    failure? (designOf disk root d.result)
      = (Design.violationFailures disk root (judged disk root skip)
        ++ Design.styleFailures disk root (judged disk root skip)).head? := by
  rw [designOf_result, judged_of_made hmade]
  split
  · rw [failure?_map, Design.failure?_analyze]
  · rfl

theorem failure?_ofDirectory (hdisk : disk.WellFormed) (root : Path) (c : Config) :
    failure? (ofDirectory disk root c) = (failures disk root c).head? := by
  refine failure?_bind (Skip.failure?_load _ _) fun skip hskip => ?_
  rw [← Skip.eq_known_of_load hskip]
  refine failure?_bind (failure?_visitAll hdisk _ skip) fun r hr => ?_
  refine failure?_bind_of_ok (exists_detectAll_ok fun e he =>
    text_ne_empty_of_mem_entries hdisk (List.mem_of_mem_filter he)) fun ds _ => ?_
  rw [← List.append_assoc]
  refine failure?_bind (failure?_designOf (made_of_visitAll hdisk hr)) fun _ _ => ?_
  exact (failure?_bind_pure _ _).trans (Organization.failure?_analyze _ c skip)

/-- The style configs that are looked for are those beside the manifests. -/
theorem styleFailures_eq_nil_iff (hdisk : disk.WellFormed) {ws : List Workspace}
    (hmade : made disk root skip = .ok ws) :
    Design.styleFailures disk root (judged disk root skip) = []
      ↔ (1 < (manifests disk root skip).length → ∀ m ∈ manifests disk root skip,
        disk.Settles (Design.styleConfigNames.map m.directory.child)) := by
  rw [Design.styleFailures_eq_nil_iff, judged_of_made hmade, (mapM_eq_ok_iff.mp hmade).length_eq]
  split
  · rename_i hmany
    rw [forall_prop_of_true hmany]
    exact forall_styleSettles_iff hdisk hmade
  · rename_i hfew
    simp [hfew]

/-- Nothing stops the survey exactly if all probing comes to an end and the files hold nothing that
does. -/
theorem failures_eq_nil_iff (hdisk : disk.WellFormed) : failures disk root c = []
    ↔ ProbesSettle disk root (Skip.known disk root c.skipDirs)
      ∧ contentFailures disk root c = [] := by
  have hmanifests : (manifests disk root (Skip.known disk root c.skipDirs)).flatMap
      (FoundManifest.failures disk) = []
        ↔ (∀ m ∈ manifests disk root (Skip.known disk root c.skipDirs),
            Detector.LockfilesSettle disk m)
          ∧ (manifests disk root (Skip.known disk root c.skipDirs)).flatMap
            (fun m => m.kind.limitFailures disk.stack m.text) = [] := by
    simp only [List.flatMap_eq_nil_iff, FoundManifest.failures, List.append_eq_nil_iff,
      FoundManifest.lockfileFailures_eq_nil_iff, forall_and]
  have hstyles : (manifests disk root (Skip.known disk root c.skipDirs)).flatMap
      (FoundManifest.failures disk) = [] →
        (Design.styleFailures disk root (judged disk root (Skip.known disk root c.skipDirs)) = []
          ↔ (1 < (manifests disk root (Skip.known disk root c.skipDirs)).length →
            ∀ m ∈ manifests disk root (Skip.known disk root c.skipDirs),
              disk.Settles (Design.styleConfigNames.map m.directory.child))) := by
    intro hnone
    obtain ⟨ws, hmade⟩ := failure?_eq_none_iff.mp
      (failure?_made.trans (List.head?_eq_none_iff.mpr hnone))
    exact styleFailures_eq_nil_iff hdisk hmade
  simp only [failures, contentFailures, List.append_eq_nil_iff, Disk.probeFailures_eq_nil_iff]
  constructor
  · rintro ⟨hignore, hmade, hnames, hconfigs, himports⟩
    obtain ⟨hlockfiles, hlimits⟩ := hmanifests.mp hmade
    exact ⟨⟨hignore, hlockfiles, (hstyles hmade).mp hconfigs⟩, hlimits, hnames, himports⟩
  · rintro ⟨⟨hignore, hlockfiles, hconfigs⟩, hlimits, hnames, himports⟩
    have hmade := hmanifests.mpr ⟨hlockfiles, hlimits⟩
    exact ⟨hignore, hmade, hnames, (hstyles hmade).mpr hconfigs, himports⟩

/-- Where all probing comes to an end, only what the files hold remains. -/
theorem failures_eq_contentFailures (hdisk : disk.WellFormed)
    (h : ProbesSettle disk root (Skip.known disk root c.skipDirs)) :
    failures disk root c = contentFailures disk root c := by
  have hignore := Disk.probeFailures_eq_nil_iff.mpr h.ignore
  have hstyles : Design.styleFailures disk root
      (judged disk root (Skip.known disk root c.skipDirs)) = [] := by
    cases hmade : made disk root (Skip.known disk root c.skipDirs) with
    | error e => simp [judged, hmade, Design.styleFailures_eq_nil_iff]
    | ok ws => exact (styleFailures_eq_nil_iff hdisk hmade).mpr h.styles
  have hmanifests : (manifests disk root (Skip.known disk root c.skipDirs)).flatMap
      (FoundManifest.failures disk)
        = (manifests disk root (Skip.known disk root c.skipDirs)).flatMap
            fun m => m.kind.limitFailures disk.stack m.text := by
    refine List.flatMap_congr fun m hm => ?_
    have hlockfiles := FoundManifest.lockfileFailures_eq_nil_iff.mpr (h.lockfiles m hm)
    rw [FoundManifest.failures, hlockfiles, List.nil_append]
  rw [failures, contentFailures, hignore, hmanifests, hstyles, List.nil_append, List.nil_append]

/-- A survey is stopped by a manifest that holds a whole number with too many digits or nests too
deeply, by an import that leads to the root of the file system, by a name that is too long, or by a
directory that may not be searched. -/
theorem kind_of_mem_failures {e : SurveyError} (he : e ∈ failures disk root c) :
    ((∃ count, e = .tooManyDigits count) ∨ ∃ task, e = .tooDeep task)
      ∨ e = .namelessTarget ∨ e = .nameTooLong ∨ e = .permissionDenied := by
  have hprobe : ∀ {paths : List Path}, e ∈ disk.probeFailures paths →
      ((∃ count, e = .tooManyDigits count) ∨ ∃ task, e = .tooDeep task)
        ∨ e = .namelessTarget ∨ e = .nameTooLong ∨ e = .permissionDenied :=
    fun h => Or.inr (Or.inr (Disk.kind_of_mem_probeFailures h))
  simp only [failures, List.mem_append] at he
  rcases he with hignore | hmanifests | hnames | hstyles | himports
  · exact hprobe hignore
  · obtain ⟨m, _, he⟩ := List.mem_flatMap.mp hmanifests
    rcases List.mem_append.mp he with hlockfiles | hlimits
    · unfold FoundManifest.lockfileFailures at hlockfiles
      split at hlockfiles
      · exact hprobe hlockfiles
      · simp at hlockfiles
    · exact Or.inl (Manifest.kind_of_mem_limitFailures hlimits)
  · exact Or.inl (Design.kind_of_mem_violationFailures hnames)
  · exact Or.inr (Or.inr (Design.kind_of_mem_styleFailures hstyles))
  · obtain ⟨path, _, he⟩ := List.mem_flatMap.mp himports
    obtain ⟨literal, _, he⟩ := List.mem_flatMap.mp he
    unfold Import.resolveFailures at he
    dsimp only at he
    split at he
    · exact hprobe he
    · split at he
      · exact Or.inr (Or.inl (by simpa using he))
      · exact hprobe he

/-- A repository with a script that imports the root of the file system, after an import that leads
nowhere, and with two manifests, one of them beside a lockfile. -/
def lateFaultDisk : Disk where
  tree := .directory [("r", .directory [
    ("a.ts", .file (Utf8.encode "import './lost'; import '../..'".toList)),
    ("package.json", .file (Utf8.encode "\x7b\x7d".toList)),
    ("web", .directory [
      ("package.json", .file (Utf8.encode "[1".toList)),
      ("yarn.lock", .file [])])])]

/-- A manifest without dependencies, beside a lockfile that is a link to a name that is too
long. -/
def longLockfileDisk : Disk where
  tree := .directory [("r", .directory [
    ("package.json", .file (Utf8.encode "\x7b\x7d".toList)),
    ("pnpm-lock.yaml", .link (String.ofList (List.replicate 64 '𝄞')))])]

end Survey

end RepoSurvey
