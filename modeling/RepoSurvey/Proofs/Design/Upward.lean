import RepoSurvey.Proofs.Design.Distinct

/-!
# Which dependencies are reported

A dependency of one workspace on another is reported exactly if it points up the stack of layers,
and if the other workspace is a package that declares the name of the dependency.

* `Layer.above`, `Layer.height`: the layers that a layer may not depend on stand higher;
* `Design.Declares`: the package in a directory declares a name;
* `Design.upwardEdges`, `Design.mem_upwardEdges`: the dependencies that point up;
* `Design.violations_eq`: they are what the check of dependencies reports;
* `Design.upward_findings_exact`: and what an analysis reports of this kind.
-/

namespace RepoSurvey

namespace Layer

/-- The layers that a layer may not depend on, in the order in which they are looked through. -/
def above : Layer → List Layer
  | .tokens => [.config, .ui]
  | .config => [.ui]
  | .ui => [.app]
  | .app => []

/-- How high in the stack a layer stands. -/
def height : Layer → Nat
  | .tokens => 0
  | .config => 1
  | .ui => 2
  | .app => 3

theorem height_lt_of_mem_above {layer other : Layer} (h : other ∈ layer.above) :
    layer.height < other.height := by
  cases layer <;> simp only [above, List.mem_cons, List.not_mem_nil, or_false] at h
  · rcases h with rfl | rfl <;> decide
  · rw [h]
    decide
  · rw [h]
    decide

end Layer

theorem Json.str?_eq_some_iff {j : Json} {s : String} : j.str? = some s ↔ j = .str s := by
  cases j <;> simp [Json.str?]

/-- A member of a value, if it is a text. -/
theorem Json.bind_str?_get?_eq_some_iff {j : Json} {name s : String} :
    (j.get? name).bind Json.str? = some s
      ↔ ∃ members, j = .obj members ∧ Table.get? members name = some (.str s) := by
  rw [Option.bind_eq_some_iff]
  simp only [Json.str?_eq_some_iff, exists_eq_right]
  cases j <;> simp [Json.get?, Json.members, Table.get?]

namespace Design

variable {disk : Disk} {root : Path} {workspaces : List Workspace}

/-! ## Names of packages -/

/-- The package in a directory declares a name: its manifest can be read and is an object with that
text for its name. -/
def Declares (disk : Disk) (directory : Path) (name : String) : Prop :=
  ∃ text members, disk.readStrict? (directory.child "package.json") = some text
    ∧ Json.read disk.stack.name text = .ok (.obj members)
    ∧ Table.get? members "name" = some (.str name)

/-- The name that is declared, if any. -/
def declaredName? (disk : Disk) (directory : Path) : Option String :=
  (disk.readStrict? (directory.child "package.json")).bind fun text =>
    (Json.read disk.stack.name text).toOption.bind fun manifest =>
      (manifest.get? "name").bind Json.str?

theorem declares_iff {directory : Path} {name : String} :
    Declares disk directory name ↔ declaredName? disk directory = some name := by
  unfold declaredName? Declares
  rw [Option.bind_eq_some_iff]
  refine exists_congr fun text => ?_
  rw [exists_and_left]
  refine and_congr_right fun _ => ?_
  cases Json.read disk.stack.name text with
  | error e => simp [Except.toOption]
  | ok manifest =>
    have hname : (manifest.get? "name").bind Json.str? = some name
        ↔ ∃ members, manifest = .obj members ∧ Table.get? members "name" = some (.str name) :=
      Json.bind_str?_get?_eq_some_iff
    simpa [Except.toOption] using hname.symm

instance (directory : Path) (name : String) : Decidable (Declares disk directory name) :=
  decidable_of_iff _ declares_iff.symm

/-- Where the name of a package can be looked for, what is found is what is declared. -/
theorem eq_declaredName? {directory : Path} {found : Option String}
    (h : Manifest.packageName? disk directory = .ok found) :
    found = declaredName? disk directory := by
  unfold Manifest.packageName? at h
  unfold declaredName?
  cases hread : disk.readStrict? (directory.child "package.json") with
  | none =>
    rw [hread] at h
    cases h
    rfl
  | some text =>
    rw [hread] at h
    obtain ⟨manifest, hmanifest, h⟩ := bind_eq_ok_iff.mp h
    cases h
    rw [Option.bind_some]
    cases hjson : Json.read disk.stack.name text with
    | ok value =>
      rw [hjson] at hmanifest
      cases hmanifest
      rfl
    | error e =>
      rw [hjson] at hmanifest
      cases e with
      | malformed =>
        cases hmanifest
        rfl
      | tooManyDigits count => cases hmanifest
      | tooDeep task => cases hmanifest

theorem namedAmong_eq {name : String} {targets named : List String}
    (h : namedAmong disk root name targets = .ok named) :
    named = targets.filter fun target => Declares disk (placeOf root target) name := by
  induction targets generalizing named with
  | nil =>
    cases h
    rfl
  | cons target rest ih =>
    obtain ⟨found, hfound, h⟩ := bind_eq_ok_iff.mp h
    obtain ⟨more, hmore, h⟩ := bind_eq_ok_iff.mp h
    cases h
    have hdeclares : Declares disk (placeOf root target) name ↔ found = some name := by
      rw [declares_iff, eq_declaredName? hfound]
    simp only [List.filter_cons, decide_eq_true_eq, hdeclares, ih hmore]

/-! ## Dependencies that point up -/

/-- A dependency of a workspace on another. -/
structure UpwardEdge where
  source : Workspace
  /-- The layer of the source. -/
  layer : Layer
  dependency : String
  target : Workspace

namespace UpwardEdge

def finding (e : UpwardEdge) : Finding := violation e.source.root e.target.root e.layer

end UpwardEdge

/-- The dependencies of a workspace of a layer that point up, by their names, then by the layer of
the target, then by the target. -/
def edgesFrom (disk : Disk) (root : Path) (workspaces : List Workspace) (w : Workspace)
    (layer : Layer) : List UpwardEdge :=
  w.dependencies.names.flatMap fun name =>
    layer.above.flatMap fun other =>
      (workspaces.filter fun v =>
          Layer.ofRoot? v.root = some other ∧ Declares disk (placeOf root v.root) name).map
        fun v => ⟨w, layer, name, v⟩

/-- The dependencies that point up, by the workspace that they are of. -/
def upwardEdges (disk : Disk) (root : Path) (workspaces : List Workspace) : List UpwardEdge :=
  workspaces.flatMap fun w =>
    (Layer.ofRoot? w.root).toList.flatMap (edgesFrom disk root workspaces w)

theorem mem_upwardEdges {e : UpwardEdge} : e ∈ upwardEdges disk root workspaces
    ↔ e.source ∈ workspaces ∧ Layer.ofRoot? e.source.root = some e.layer
      ∧ e.dependency ∈ e.source.dependencies.names ∧ e.target ∈ workspaces
      ∧ (∃ other ∈ e.layer.above, Layer.ofRoot? e.target.root = some other)
      ∧ Declares disk (placeOf root e.target.root) e.dependency := by
  simp only [upwardEdges, edgesFrom, List.mem_flatMap, List.mem_map, List.mem_filter,
    Option.mem_toList, decide_eq_true_eq]
  constructor
  · rintro ⟨w, hw, layer, hlayer, name, hname, other, hother, v, ⟨hv, htarget, hdeclares⟩, rfl⟩
    exact ⟨hw, hlayer, hname, hv, ⟨other, hother, htarget⟩, hdeclares⟩
  · rintro ⟨hw, hlayer, hname, hv, ⟨other, hother, htarget⟩, hdeclares⟩
    exact ⟨e.source, hw, e.layer, hlayer, e.dependency, hname, other, hother, e.target,
      ⟨hv, htarget, hdeclares⟩, rfl⟩

/-! ## What the check reports -/

theorem forbidden_eq (layer : Layer) : forbidden (Layers.of workspaces) layer
    = layer.above.flatMap fun other => rootsIn other workspaces := by
  cases layer <;> simp [forbidden, Layers.of, Layer.above]

/-- The targets of one dependency, found among the directories of the layers above. -/
theorem map_filter_forbidden (w : Workspace) (layer : Layer) (name : String) :
    ((forbidden (Layers.of workspaces) layer).filter fun target =>
        Declares disk (placeOf root target) name).map (fun target => violation w.root target layer)
      = layer.above.flatMap fun other => ((workspaces.filter fun v =>
          Layer.ofRoot? v.root = some other ∧ Declares disk (placeOf root v.root) name).map
            fun v => (⟨w, layer, name, v⟩ : UpwardEdge)).map UpwardEdge.finding := by
  rw [forbidden_eq, List.filter_flatMap, List.map_flatMap]
  refine List.flatMap_congr fun other _ => ?_
  rw [rootsIn, List.filter_map, List.filter_filter, List.map_map, List.map_map]
  refine congrArg (List.map _) (List.filter_congr fun v _ => ?_)
  simp [and_comm]

theorem violationsOf_eq {w : Workspace} {fs : List Finding}
    (h : violationsOf disk root (Layers.of workspaces) w = .ok fs) :
    fs = ((Layer.ofRoot? w.root).toList.flatMap (edgesFrom disk root workspaces w)).map
      UpwardEdge.finding := by
  unfold violationsOf at h
  split at h
  · rename_i hlayer
    cases h
    rw [hlayer]
    rfl
  · rename_i layer hlayer
    obtain ⟨found, hfound, h⟩ := bind_eq_ok_iff.mp h
    cases h
    have hnamed := flatten_eq_flatMap hfound fun e _ named hnamed => namedAmong_eq hnamed
    rw [hnamed, hlayer, Option.toList_some, List.flatMap_singleton, edgesFrom, Table.names,
      List.flatMap_map, List.map_flatMap, List.map_flatMap]
    refine List.flatMap_congr fun e _ => ?_
    rw [map_filter_forbidden, List.map_flatMap]

/-- What the check of dependencies reports. -/
theorem violations_eq {fs : List Finding}
    (h : violations disk root (Layers.of workspaces) workspaces = .ok fs) :
    fs = (upwardEdges disk root workspaces).map UpwardEdge.finding := by
  obtain ⟨found, hfound, h⟩ := bind_eq_ok_iff.mp h
  cases h
  rw [upwardEdges, List.map_flatMap]
  exact flatten_eq_flatMap hfound fun w _ fs hfs => violationsOf_eq hfs

/-! ## What an analysis reports -/

/-- The findings of one kind among findings that are all of one kind. -/
theorem filter_kind_of_forall {fs : List Finding} {kind : FindingKind}
    (h : ∀ f ∈ fs, f.kind = kind) (wanted : FindingKind) :
    fs.filter (fun f => f.kind = wanted) = if kind = wanted then fs else [] := by
  split
  · rename_i hsame
    exact List.filter_eq_self.mpr fun f hf => by simp [h f hf, hsame]
  · rename_i hother
    exact List.filter_eq_nil_iff.mpr fun f hf => by simp [h f hf, hother]

/-- The findings of one kind are those of one check. -/
theorem filter_findings {a : Analysis} (h : analyze disk root workspaces = .ok a) :
    ∃ presets colors, ∀ wanted, a.findings.filter (fun f => f.kind = wanted)
      = (if .missingLayer = wanted then
          if 1 < workspaces.length then missingLayers (Layers.of workspaces) else [] else [])
        ++ (if .dependencyViolation = wanted then
          (upwardEdges disk root workspaces).map UpwardEdge.finding else [])
        ++ (if .missingSharedPreset = wanted then presets else [])
        ++ if .hardcodedConfigValues = wanted then colors else [] := by
  obtain ⟨upward, hupward, h⟩ := bind_eq_ok_iff.mp h
  obtain ⟨presets, hpresets, h⟩ := bind_eq_ok_iff.mp h
  obtain ⟨colors, hcolors, h⟩ := bind_eq_ok_iff.mp h
  cases h
  have hmissing : ∀ f ∈ (if 1 < workspaces.length then missingLayers (Layers.of workspaces)
      else []), f.kind = .missingLayer := by
    intro f hf
    split at hf
    · exact kind_of_mem_missingLayers hf
    · cases hf
  refine ⟨presets, colors, fun wanted => ?_⟩
  rw [List.filter_append, List.filter_append, List.filter_append, filter_kind_of_forall hmissing,
    filter_kind_of_forall fun f hf => kind_of_mem_violations hupward hf,
    filter_kind_of_forall fun f hf => kind_of_mem_presetFindings hpresets hf,
    filter_kind_of_forall fun f hf => kind_of_mem_colorFindings hcolors hf,
    violations_eq hupward]

/-- The violations that an analysis reports are the dependencies that point up, in the order of the
workspaces, then of the dependencies, then of the targets. Each is of a workspace in a layer, which
is not an application, on one in a higher layer, whose package declares the name of the dependency.
Layers are only missing where there are several workspaces. -/
theorem upward_findings_exact {a : Analysis} (h : analyze disk root workspaces = .ok a) :
    a.findings.filter (fun f => f.kind = .dependencyViolation)
        = (upwardEdges disk root workspaces).map UpwardEdge.finding
      ∧ (∀ e, e ∈ upwardEdges disk root workspaces
        ↔ e.source ∈ workspaces ∧ Layer.ofRoot? e.source.root = some e.layer
          ∧ e.dependency ∈ e.source.dependencies.names ∧ e.target ∈ workspaces
          ∧ (∃ other ∈ e.layer.above, Layer.ofRoot? e.target.root = some other)
          ∧ Declares disk (placeOf root e.target.root) e.dependency)
      ∧ (∀ e ∈ upwardEdges disk root workspaces, e.layer ≠ .app
        ∧ ∃ other, Layer.ofRoot? e.target.root = some other ∧ e.layer.height < other.height)
      ∧ a.findings.filter (fun f => f.kind = .missingLayer)
        = if 1 < workspaces.length then missingLayers (Layers.of workspaces) else [] := by
  obtain ⟨presets, colors, hfilter⟩ := filter_findings h
  refine ⟨(hfilter _).trans (by simp), fun e => mem_upwardEdges, fun e he => ?_,
    (hfilter _).trans (by simp)⟩
  obtain ⟨_, _, _, _, ⟨other, hother, htarget⟩, _⟩ := mem_upwardEdges.mp he
  refine ⟨?_, other, htarget, Layer.height_lt_of_mem_above hother⟩
  intro happ
  rw [happ] at hother
  cases hother

/-- A directory with a manifest that gives a value for the name. -/
def packageWith (value : String) : FileTree :=
  .directory
    [("package.json", .file (Utf8.encode ("\x7b\"name\": " ++ value ++ "\x7d").toList))]

/-- A repository with a package in each layer, and one whose name is no text. -/
def stackedDisk : Disk where
  tree := .directory [("r", .directory [
    ("apps", .directory [("web", packageWith "\"web\"")]),
    ("packages", .directory [
      ("config", packageWith "\"@a/config\""), ("more-ui", packageWith "5"),
      ("tokens", packageWith "\"@a/tokens\""), ("ui", packageWith "\"@a/ui\"")])])]

/-- Workspaces in which every dependency on another layer occurs, up and down. -/
def stackedWorkspaces : List Workspace :=
  [⟨"packages/ui", "npm", "typescript", [("web", "*"), ("@a/tokens", "*")]⟩,
   ⟨"packages/tokens", "npm", "typescript", [("web", "*"), ("@a/ui", "*"), ("@a/config", "*")]⟩,
   ⟨"packages/more-ui", "npm", "typescript", [("@a/ui", "*"), ("5", "*")]⟩,
   ⟨"packages/config", "npm", "typescript", [("@a/tokens", "*"), ("@a/ui", "*")]⟩,
   ⟨"apps/web", "npm", "typescript", [("@a/ui", "*"), ("web", "*")]⟩]

theorem upward_findings_exact_stacked : ∃ a,
    analyze stackedDisk ⟨true, ["r"]⟩ stackedWorkspaces = .ok a
    ∧ (a.findings.filter fun f => f.kind = .dependencyViolation).map (·.paths)
        = [["packages/ui", "apps/web"], ["packages/tokens", "packages/ui"],
          ["packages/tokens", "packages/config"], ["packages/config", "packages/ui"]] := by
  obtain ⟨a, ha⟩ := exists_ok_of_isSome
    (show (analyze stackedDisk ⟨true, ["r"]⟩ stackedWorkspaces).toOption.isSome = true by
      decide +kernel)
  refine ⟨a, ha, ?_⟩
  rw [(upward_findings_exact ha).1]
  decide +kernel

end Design

end RepoSurvey
