import RepoSurvey.Proofs.Design.Distinct
import RepoSurvey.Proofs.Disk.Correspondence
import RepoSurvey.Proofs.Survey.Recognition

/-!
# What sources hold that are too long does not matter

A source with more characters than the limit is not searched, and has neither imports nor exports.
Only the checks of style configs read it. So what it holds shows at most in the findings on the
design system.

* `Utf8.Oversized`: bytes whose text is longer than a limit;
* `Disk.SameButOversized`: two disks that differ only in sources that are too long on both;
* `SameButOversized.looksAlike`: they look alike to a survey;
* `SurveyResult.SameButDesign`, `Survey.sameButDesign_of_looksAlike`: results for disks that look
  alike are the same, but for the findings on the design system;
* `Survey.run_same_of_oversized`: and so for disks that differ only in such sources.
-/

namespace RepoSurvey

/-- The text of some bytes has more characters than a limit. -/
def Utf8.Oversized (limit : Nat) (bytes : List UInt8) : Prop :=
  limit < (Text.unixNewlines (lenient bytes)).length

instance (limit : Nat) (bytes : List UInt8) : Decidable (Utf8.Oversized limit bytes) :=
  inferInstanceAs (Decidable (_ < _))

variable {disk disk' : Disk} {place : List String}

/-! ## Disks -/

namespace Disk

open FileTree

/-- Two disks differ only in the bytes of files with the suffix of a source that are too long on
both. -/
structure SameButOversized (limit : Nat) (disk disk' : Disk) : Prop where
  corresponds : Corresponds (fun bytes bytes' => bytes = bytes'
    ∨ Utf8.Oversized limit bytes ∧ Utf8.Oversized limit bytes') disk disk'
  source : ∀ above name bytes bytes', disk.tree.at? (above ++ [name]) = some (.file bytes) →
    disk'.tree.at? (above ++ [name]) = some (.file bytes') → bytes ≠ bytes' →
    SourceFile.isSource name = true

/-- Sources that are too long may be rewritten, if they are too long even then. -/
theorem sameButOversized_mapFiles {limit : Nat} {f : String → List UInt8 → List UInt8}
    (h : everyFile (fun name bytes => decide (f name bytes = bytes)
      || (SourceFile.isSource name && decide (Utf8.Oversized limit bytes)
        && decide (Utf8.Oversized limit (f name bytes)))) disk = true) :
    SameButOversized limit disk (disk.mapFiles f) := by
  refine ⟨corresponds_mapFiles fun path bytes hat => ?_,
    fun above name bytes bytes' hat hat' hne => ?_⟩
  · have hfile := apply_of_everyFile h hat
    simp only [Bool.or_eq_true, Bool.and_eq_true, decide_eq_true_eq] at hfile
    rcases hfile with hsame | ⟨⟨_, hlong⟩, hlong'⟩
    · exact Or.inl hsame.symm
    · exact Or.inr ⟨hlong, hlong'⟩
  · have hfile := apply_of_everyFile h hat
    rw [mapFiles, at?_mapFiles, hat] at hat'
    obtain rfl : f ((above ++ [name]).getLastD "") bytes = bytes' := by
      injection hat' with hfound
      injection hfound
    rw [List.getLastD_concat] at hfile hne
    simp only [Bool.or_eq_true, Bool.and_eq_true, decide_eq_true_eq] at hfile
    rcases hfile with hsame | ⟨⟨hsource, _⟩, _⟩
    · exact absurd hsame.symm hne
    · exact hsource

namespace SameButOversized

variable {limit : Nat}

/-- Under a name that is not of a source the same stands. -/
theorem node?_eq (h : SameButOversized limit disk disk') (above : List String) {name : String}
    (hname : SourceFile.isSource name = false) :
    disk.node? (above ++ [name]) = disk'.node? (above ++ [name]) := by
  have hkind := h.corresponds.at? (above ++ [name])
  have hsource := h.source above name
  rw [node?, node?, h.corresponds.rights]
  generalize disk.tree.at? (above ++ [name]) = t at hkind hsource ⊢
  generalize disk'.tree.at? (above ++ [name]) = t' at hkind hsource ⊢
  cases hkind with
  | none => rfl
  | some hkind =>
    cases hkind with
    | link target => rfl
    | directory entries entries' => rfl
    | @file bytes bytes' _ =>
      have hsame : bytes = bytes' := by
        by_contra hne
        rw [hsource bytes bytes' rfl rfl hne] at hname
        cases hname
      rw [hsame]

/-- Files that are not too long read the same. -/
theorem readWithin?_eq (h : SameButOversized limit disk disk') (path : Path) :
    disk.readWithin? limit path = disk'.readWithin? limit path := by
  unfold readWithin? readLenient?
  rw [Option.bind_map, Option.bind_map]
  refine h.corresponds.bind_bytes?_eq (fun b b' hb => ?_) path
  rcases hb with rfl | ⟨hlong, hlong'⟩
  · rfl
  · unfold Utf8.Oversized at hlong hlong'
    simp only [Function.comp]
    rw [if_neg (by omega), if_neg (by omega)]

section Linkless

variable (hdisk : disk.WellFormed) (hdisk' : disk'.WellFormed) (hplace : disk.Reaches place)
  (hplace' : disk'.Reaches place)
  (hlinks : ∀ path target, disk.tree.at? (place ++ path) ≠ some (.link target))

include hdisk hdisk' hplace hplace' hlinks

/-- What is not a source is looked up alike below a directory without links. -/
theorem lookup_eq (h : SameButOversized limit disk disk') {p : Path} (hp : p.Recognizable)
    (hbelow : place <+: p.segments) (hname : SourceFile.isSource p.name = false) :
    disk.lookup p = disk'.lookup p := by
  have hlinks' : ∀ q target, disk'.tree.at? (place ++ q) ≠ some (.link target) :=
    fun q target hat => hlinks q target (h.corresponds.symm.at?_link hat)
  refine lookup_eq_of_linkless hdisk hdisk'
    (.of_reaches hdisk hdisk' hplace hplace' (h.corresponds.rights place)) hlinks hlinks'
    (fun q r => ⟨h.corresponds.node?_directory, h.corresponds.symm.node?_directory⟩) hp hbelow
    fun above => ?_
  rw [← List.append_assoc]
  exact h.node?_eq (place ++ above) hname

theorem looksAlike (h : SameButOversized limit disk disk') :
    Survey.LooksAlike limit place disk disk' where
  left := hdisk
  right := hdisk'
  directory := hplace.isDirectory hdisk
  stack := h.corresponds.stack
  entries := fun skip => by rw [h.corresponds.entries_eq hdisk hdisk']
  isFile := fun p _ => h.corresponds.isFile_eq p
  within := fun p _ => h.readWithin?_eq p
  strict := fun p hp hbelow hname => readStrict?_congr
    (h.lookup_eq hdisk hdisk' hplace hplace' hlinks hp hbelow hname)

end Linkless

end SameButOversized

end Disk

/-! ## Results -/

/-- Two results are the same, but for the findings on the design system. -/
structure SurveyResult.SameButDesign (r r' : SurveyResult) : Prop where
  detections : r.detections = r'.detections
  workspaces : r.workspaces = r'.workspaces
  layers : r.layers = r'.layers
  stats : r.stats = r'.stats
  organization : (r.findings.getD []).filter (fun f => f.domain == Organization.domain)
    = (r'.findings.getD []).filter (fun f => f.domain == Organization.domain)

namespace Survey

/-- The layers are told by the workspaces alone. -/
theorem layers_of_designOf {root : Path} {workspaces : List Workspace}
    {design : Option Design.Analysis} (h : designOf disk root workspaces = .ok design) :
    design.map Design.Analysis.layers = if workspaces.length > 1
      then some (Design.summary (Design.Layers.of workspaces) workspaces) else none := by
  unfold designOf at h
  split
  · rename_i hmany
    rw [if_pos hmany] at h
    obtain ⟨a, ha, rfl⟩ := map_eq_ok_iff.mp h
    rw [Option.map_some, Design.layers_of_analyze ha]
  · rename_i hfew
    rw [if_neg hfew] at h
    cases h
    rfl

theorem sameButDesign_of_looksAlike {c : Config}
    (h : LooksAlike (c.fileSize : Nat) place disk disk') {r r' : SurveyResult}
    (hr : ofDirectory disk ⟨true, place⟩ c = .ok r)
    (hr' : ofDirectory disk' ⟨true, place⟩ c = .ok r') : r.SameButDesign r' := by
  obtain ⟨skip, d, design, _, hskip, hd, hdetections, hworkspaces, hdesign, _, _, hlayers, _⟩ :=
    ofDirectory_eq_ok hr
  obtain ⟨skip', d', design', _, hskip', hd', hdetections', hworkspaces', hdesign', _, _, hlayers',
    _⟩ := ofDirectory_eq_ok hr'
  rw [← h.load_eq, hskip] at hskip'
  cases hskip'
  obtain ⟨known, a, hknown, ha, horganization, hstats⟩ := organization_of_ofDirectory h.left hr
  obtain ⟨known', a', hknown', ha', horganization', hstats'⟩ :=
    organization_of_ofDirectory h.right hr'
  rw [← h.load_eq, hknown] at hknown'
  cases hknown'
  have hresult : d.1.result = d'.1.result := by
    have hmap := h.map_visitAll_eq skip
    rw [hd, hd'] at hmap
    have hsame : d.1.workspaces = d'.1.workspaces := Except.ok.inj hmap
    rw [Detector.result, Detector.result, hsame]
  have hanalyses : a = a' := by
    rw [h.analyze_eq, ha'] at ha
    exact (Except.ok.inj ha).symm
  refine ⟨?_, ?_, ?_, ?_, ?_⟩
  · rw [sources_eq] at hdetections hdetections'
    rw [h.detectAll_eq, hdetections'] at hdetections
    exact (Except.ok.inj hdetections).symm
  · rw [hworkspaces, hworkspaces', hresult]
  · rw [hlayers, hlayers', layers_of_designOf hdesign, layers_of_designOf hdesign', hresult]
  · rw [hstats, hstats', hanalyses]
  · rw [horganization, horganization', hanalyses]

/-- What sources hold that are too long does not matter. If two disks differ only in such sources,
and there are no links in the directory that a path leads to, then the results of surveying it are
the same but for the findings on the design system, if there are results. -/
theorem run_same_of_oversized (hdisk : disk.WellFormed) (hdisk' : disk'.WellFormed) {path : Path}
    {c : Config} (h : disk.SameButOversized c.fileSize disk')
    (hlinks : ∀ place, disk.destination path = .ok (.directory place) →
      ∀ below target, disk.tree.at? (place ++ below) ≠ some (.link target))
    {r r' : SurveyResult} (hr : run disk path c = .ok r) (hr' : run disk' path c = .ok r') :
    r.SameButDesign r' := by
  rcases destination_of_run hr with ⟨place, hfound, hr⟩ | ⟨found, hfound, hno, rfl⟩
  · have hfound' := h.corresponds.destination_directory hfound
    rw [run_of_directory hfound'] at hr'
    exact sameButDesign_of_looksAlike (h.looksAlike hdisk hdisk'
      (Disk.resolve_of_destination hdisk hfound).2
      (Disk.resolve_of_destination hdisk' hfound').2 (hlinks place hfound)) hr hr'
  · rcases destination_of_run hr' with ⟨place, hfound', _⟩ | ⟨_, _, _, rfl⟩
    · have hback := h.corresponds.symm.destination_directory hfound'
      rw [hfound] at hback
      exact absurd (Except.ok.inj hback) (hno place)
    · exact ⟨rfl, rfl, rfl, rfl, rfl⟩

/-- A repository of two packages, one of them with a style config that is imported. -/
def styledDisk : Disk where
  tree := .directory [("r", .directory [
    ("a", .directory [
      ("package.json", .file (Utf8.encode "\x7b\x7d".toList)),
      ("tailwind.config.js", .file (Utf8.encode "export default '#abc'; import '../b'".toList))]),
    ("b.ts", .file (Utf8.encode "import './a/tailwind.config'".toList)),
    ("package.json", .file (Utf8.encode "\x7b\x7d".toList))])]

/-- The same repository with another style config. -/
def restyledDisk : Disk :=
  styledDisk.mapFiles fun name bytes => if name = "tailwind.config.js"
    then Utf8.encode "export default 'plain'; export default 'odd'".toList else bytes

/-- A style config that is too long is read by the checks of style configs, and by nothing else. -/
theorem run_same_of_oversized_styled : styledDisk.WellFormed ∧ restyledDisk.WellFormed
    ∧ styledDisk.SameButOversized 30 restyledDisk
    ∧ ∃ r r', run styledDisk ⟨true, ["r"]⟩ { fileSize := ⟨30, by decide⟩ } = .ok r
      ∧ run restyledDisk ⟨true, ["r"]⟩ { fileSize := ⟨30, by decide⟩ } = .ok r'
      ∧ (r.findings.getD []).map (·.kind) = [.hardcodedConfigValues]
      ∧ (r'.findings.getD []).map (·.kind) = [] ∧ r.SameButDesign r' := by
  have hdisk : styledDisk.WellFormed := by decide +kernel
  have hdisk' : restyledDisk.WellFormed := by decide +kernel
  have hsame : styledDisk.SameButOversized 30 restyledDisk :=
    Disk.sameButOversized_mapFiles (by decide +kernel)
  have hlinks : styledDisk.tree.linkless = true := by decide +kernel
  have hfound : (run styledDisk ⟨true, ["r"]⟩ { fileSize := ⟨30, by decide⟩ }).toOption.map
      (fun r => (r.findings.getD []).map (·.kind)) = some [.hardcodedConfigValues] := by
    decide +kernel
  have hfound' : (run restyledDisk ⟨true, ["r"]⟩ { fileSize := ⟨30, by decide⟩ }).toOption.map
      (fun r => (r.findings.getD []).map (·.kind)) = some [] := by
    decide +kernel
  obtain ⟨r, hr, hkinds⟩ := exists_ok_of_map_toOption hfound
  obtain ⟨r', hr', hkinds'⟩ := exists_ok_of_map_toOption hfound'
  refine ⟨hdisk, hdisk', hsame, r, r', hr, hr', hkinds, hkinds', ?_⟩
  exact run_same_of_oversized hdisk hdisk' hsame
    (fun place _ below target => FileTree.at?_ne_link hlinks (place ++ below) target) hr hr'

end Survey

end RepoSurvey
