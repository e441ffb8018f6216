import RepoSurvey.Proofs.Organization.CircularImports

/-!
# What higher thresholds do to the findings

Where thresholds are raised, no check reports something new, and nothing it still reports becomes
more severe. The circular imports and the figures do not depend on the thresholds.

* `Config.Raised`: a config with higher thresholds;
* `Finding.Milder`, `Organization.Fewer`: findings that go back to others;
* `Organization.fewer_filter`, `Organization.fewer_filterMap`: a check that lets more pass;
* `Organization.fewer_godDirectories` and its like: one lemma for each check;
* `Organization.analyze_antitone`: the whole analysis.
-/

namespace RepoSurvey

/-- A config is another with thresholds of the checks raised. The limit on the length of a text
and the directories that are passed over are the same; the analysis reads no other setting. -/
structure Config.Raised (c c' : Config) : Prop where
  godDirectory : c.godDirectory.val ≤ c'.godDirectory
  nestingDepth : c.nestingDepth.val ≤ c'.nestingDepth
  barrelBloat : c.barrelBloat.val ≤ c'.barrelBloat
  catchAll : c.catchAll.val ≤ c'.catchAll
  namedExports : c.namedExports.val ≤ c'.namedExports
  namingFiles : c.namingFiles.val ≤ c'.namingFiles
  namingBucket : c.namingBucket.val ≤ c'.namingBucket
  fileSize : c'.fileSize = c.fileSize
  skipDirs : c'.skipDirs = c.skipDirs

/-! ## Findings that go back to others -/

namespace Severity

def rank : Severity → Nat
  | .info => 0
  | .warning => 1
  | .critical => 2

instance : LE Severity := ⟨fun s t => s.rank ≤ t.rank⟩

instance (s t : Severity) : Decidable (s ≤ t) := inferInstanceAs (Decidable (s.rank ≤ t.rank))

protected theorem le_refl (s : Severity) : s ≤ s := Nat.le_refl s.rank

end Severity

namespace Finding

/-- The fault that a finding is marked with, beside its kind. -/
def issue? (f : Finding) : Option Json := f.metadata.bind fun t => t.get? "issue"

/-- A finding reports what another does, and is not more severe. -/
structure Milder (f g : Finding) : Prop where
  kind : f.kind = g.kind
  paths : f.paths = g.paths
  issue : f.issue? = g.issue?
  severity : f.severity ≤ g.severity

instance : Std.Refl Milder := ⟨fun f => ⟨rfl, rfl, rfl, f.severity.le_refl⟩⟩

end Finding

namespace Organization

variable {α : Type} {fs fs' gs gs' : List Finding} {texts : Contents} {i : Inventory}

/-- Each finding of a list goes back to one of another, in order and no two of them to the
same. -/
def Fewer (fs' fs : List Finding) : Prop := List.SublistForall₂ Finding.Milder fs' fs

theorem Fewer.refl (fs : List Finding) : Fewer fs fs :=
  (List.Sublist.refl fs).sublistForall₂

theorem Fewer.append (hf : Fewer fs' fs) (hg : Fewer gs' gs) :
    Fewer (fs' ++ gs') (fs ++ gs) := by
  obtain ⟨ms, hms, hsub⟩ := List.sublistForall₂_iff.mp hf
  obtain ⟨ns, hns, hsub'⟩ := List.sublistForall₂_iff.mp hg
  exact List.sublistForall₂_iff.mpr ⟨ms ++ ns, List.rel_append hms hns, hsub.append hsub'⟩

theorem Fewer.length_le (h : Fewer fs' fs) : fs'.length ≤ fs.length := by
  obtain ⟨ms, hms, hsub⟩ := List.sublistForall₂_iff.mp h
  rw [hms.length_eq]
  exact hsub.length_le

theorem Fewer.exists_of_mem (h : Fewer fs' fs) {f' : Finding} (hf : f' ∈ fs') :
    ∃ f ∈ fs, f'.Milder f := by
  induction h with
  | nil => cases hf
  | cons hhead _ ih =>
    rcases List.mem_cons.mp hf with rfl | hf
    · exact ⟨_, List.mem_cons_self, hhead⟩
    · obtain ⟨f, hmem, hmilder⟩ := ih hf
      exact ⟨f, List.mem_cons_of_mem _ hmem, hmilder⟩
  | cons_right _ ih =>
    obtain ⟨f, hmem, hmilder⟩ := ih hf
    exact ⟨f, List.mem_cons_of_mem _ hmem, hmilder⟩

/-- A check that makes a finding on what it is shown, or none, and one that makes no others. -/
theorem fewer_filterMap {items : List α} {report report' : α → Option Finding}
    (h : ∀ a f', report' a = some f' → ∃ f, report a = some f ∧ f'.Milder f) :
    Fewer (items.filterMap report') (items.filterMap report) := by
  induction items with
  | nil => exact .nil
  | cons a items ih =>
    rw [List.filterMap_cons, List.filterMap_cons]
    cases ha' : report' a with
    | none =>
      cases report a with
      | none => exact ih
      | some f => exact .cons_right ih
    | some f' =>
      obtain ⟨f, ha, hmilder⟩ := h a f' ha'
      rw [ha]
      exact .cons hmilder ih

/-- A check that makes a finding on everything with a fault, and one that sees fewer faults. -/
theorem fewer_filter {items : List α} {report report' : α → Finding}
    {isFault isFault' : α → Bool}
    (hfault : ∀ a, isFault' a = true → isFault a = true)
    (hreport : ∀ a, (report' a).Milder (report a)) :
    Fewer ((items.filter isFault').map report') ((items.filter isFault).map report) := by
  refine List.sublistForall₂_iff.mpr ⟨(items.filter isFault').map report, ?_,
    (List.monotone_filter_right items hfault).map report⟩
  rw [List.forall₂_map_left_iff, List.forall₂_map_right_iff, List.forall₂_same]
  exact fun a _ => hreport a

/-! ## The checks -/

/-- A count is as severe beyond a higher threshold, or less. -/
theorem severityOf_antitone (count : Nat) {t t' : Nat} (h : t ≤ t') :
    severityOf count t' ≤ severityOf count t := by
  by_cases hfar : count > t' * 2
  · have hfar₀ : count > t * 2 := by omega
    rw [severityOf, severityOf, if_pos hfar, if_pos hfar₀]
    exact Severity.le_refl _
  · rw [severityOf, severityOf, if_neg hfar]
    split <;> decide

theorem fewer_godDirectories (i : Inventory) {t t' : Nat} (h : t ≤ t') :
    Fewer (godDirectories i t') (godDirectories i t) := by
  refine fewer_filter (fun e he => ?_) fun e => ⟨rfl, rfl, rfl, severityOf_antitone _ h⟩
  simp only [decide_eq_true_eq] at he ⊢
  omega

theorem fewer_catchAlls (i : Inventory) {t t' : Nat} (h : t ≤ t') :
    Fewer (catchAlls i t') (catchAlls i t) := by
  refine fewer_filter (fun e he => ?_) fun e => ⟨rfl, rfl, rfl, severityOf_antitone _ h⟩
  simp only [Bool.and_eq_true, decide_eq_true_eq] at he ⊢
  exact ⟨he.1, by omega⟩

theorem fewer_deepNestings (i : Inventory) {most most' : Nat} (h : most ≤ most') :
    Fewer (deepNestings i most') (deepNestings i most) := by
  refine fewer_filter (fun path hpath => ?_) fun path => ⟨rfl, rfl, rfl, Severity.le_refl _⟩
  simp only [decide_eq_true_eq] at hpath ⊢
  omega

theorem fewer_barrelBloats (texts : Contents) {t t' : Nat} (h : t ≤ t') :
    Fewer (barrelBloats texts t') (barrelBloats texts t) := by
  refine fewer_filterMap fun e f' hf => ?_
  obtain ⟨hindex, hf⟩ := Option.ite_none_right_eq_some.mp hf
  obtain ⟨hmany, hf⟩ := Option.ite_none_right_eq_some.mp hf
  cases hf
  refine ⟨barrelBloat t (reexports e.2) (Path.joined e.1), ?_,
    rfl, rfl, rfl, severityOf_antitone _ h⟩
  have hmany₀ : reexports e.2 > t := by omega
  exact (if_pos hindex).trans (if_pos hmany₀)

theorem fewer_mixedExports (texts : Contents) {fewest fewest' : Nat} (h : fewest ≤ fewest') :
    Fewer (mixedExports texts fewest') (mixedExports texts fewest) := by
  refine fewer_filterMap fun e f' hf => ?_
  obtain ⟨hjudged, hf⟩ := Option.ite_none_left_eq_some.mp hf
  obtain ⟨henough, hf⟩ := Option.ite_none_left_eq_some.mp hf
  cases hf
  refine ⟨mixedExport (namedExports e.2) (Path.joined e.1), ?_,
    rfl, rfl, rfl, Severity.le_refl _⟩
  have henough₀ : ¬ namedExports e.2 < fewest := by omega
  exact (if_neg hjudged).trans (if_neg henough₀)

/-- With a higher minimum fewer conventions count, so that two of them count less often. -/
theorem fewer_mixedNamings (i : Inventory) {files files' bucket bucket' : Nat}
    (hfiles : files ≤ files') (hbucket : bucket ≤ bucket') :
    Fewer (mixedNamings i files' bucket') (mixedNamings i files bucket) := by
  refine fewer_filterMap fun e f' hf => ?_
  simp only [mixedNamingOf?] at hf ⊢
  obtain ⟨hjudged, hf⟩ := Option.ite_none_left_eq_some.mp hf
  cases hf
  have hcount : ((conventionCounts e.2).filter fun x => decide (x.2 ≥ bucket')).length
      ≤ ((conventionCounts e.2).filter fun x => decide (x.2 ≥ bucket)).length := by
    refine (List.monotone_filter_right _ fun x hx => ?_).length_le
    simp only [decide_eq_true_eq] at hx ⊢
    omega
  simp only [Bool.or_eq_true, decide_eq_true_eq] at hjudged ⊢
  exact ⟨_, if_neg (by omega), rfl, rfl, rfl, Severity.le_refl _⟩

theorem fewer_checkAll {c c' : Config} (h : c.Raised c') (i : Inventory) (texts : Contents) :
    Fewer (checkAll c' i texts) (checkAll c i texts) :=
  (((((fewer_godDirectories i h.godDirectory).append
    (fewer_mixedNamings i h.namingFiles h.namingBucket)).append
    (fewer_deepNestings i h.nestingDepth)).append
    (fewer_barrelBloats texts h.barrelBloat)).append
    (fewer_catchAlls i h.catchAll)).append
    (fewer_mixedExports texts h.namedExports)

/-! ## The analysis -/

variable {disk : Disk} {root : Path} {c c' : Config} {skip : NameSet}

/-- Raising thresholds neither creates a finding nor makes one more severe. The analysis fails
as before, and it reports the same circular imports and figures. -/
theorem analyze_antitone (h : c.Raised c') :
    failure? (analyze disk root c' skip) = failure? (analyze disk root c skip)
      ∧ ∀ a a', analyze disk root c skip = .ok a → analyze disk root c' skip = .ok a' →
        (∀ f' ∈ a'.findings, ∃ f ∈ a.findings, f'.Milder f)
          ∧ a'.findings.length ≤ a.findings.length
          ∧ a'.circular = a.circular ∧ a'.stats = a.stats := by
  refine ⟨?_, fun a a' ha ha' => ?_⟩
  · rw [analyze, analyze, h.fileSize, h.skipDirs]
    exact failure?_bind_congr fun found =>
      (failure?_bind_pure _ _).trans (failure?_bind_pure _ _).symm
  · obtain ⟨found, hfound, ha⟩ := bind_eq_ok_iff.mp ha
    obtain ⟨circular, hcircular, ha⟩ := bind_eq_ok_iff.mp ha
    rw [analyze, h.fileSize, h.skipDirs] at ha'
    obtain ⟨found', hfound', ha'⟩ := bind_eq_ok_iff.mp ha'
    cases hfound.symm.trans hfound'
    obtain ⟨circular', hcircular', ha'⟩ := bind_eq_ok_iff.mp ha'
    cases hcircular.symm.trans hcircular'
    cases ha
    cases ha'
    have hfewer := fun i texts => (fewer_checkAll h i texts).append (Fewer.refl circular)
    refine ⟨fun f' hf => (hfewer _ _).exists_of_mem hf, (hfewer _ _).length_le, ?_, rfl⟩
    rw [circular_eq hcircular, circular_eq hcircular]

/-- A directory with a fault for every check, and a ring of two scripts. -/
def faultyDisk : Disk where
  tree := .directory [("r", .directory [("lib", .directory [
    ("a_b.ts", .file (Utf8.encode "export default 1\nexport const x = 1".toList)),
    ("c_d.ts", .file (Utf8.encode "import './index'".toList)),
    ("e-f.ts", .file []),
    ("g-h.ts", .file []),
    ("in", .directory []),
    ("index.ts", .file (Utf8.encode "export * from './a_b'\nexport * from './c_d'".toList))])])]

/-- Thresholds so low that every check reports something on `faultyDisk`. -/
def strictConfig : Config where
  godDirectory := 1
  nestingDepth := 1
  barrelBloat := 1
  catchAll := 1
  namedExports := 1
  namingFiles := 3
  namingBucket := 2
  fileSize := 500000
  batchSize := 50

/-- Thresholds that only the number of scripts in a directory of `faultyDisk` is beyond. -/
def laxConfig : Config :=
  { strictConfig with
    godDirectory := 3, nestingDepth := 2, barrelBloat := 2, catchAll := 5, namedExports := 2,
    namingBucket := 3 }

theorem analyze_antitone_faulty : ∃ a a', strictConfig.Raised laxConfig
    ∧ analyze faultyDisk ⟨true, ["r"]⟩ strictConfig [] = .ok a
    ∧ analyze faultyDisk ⟨true, ["r"]⟩ laxConfig [] = .ok a'
    ∧ a.findings.map (fun f => (f.kind, f.severity))
        = [(.godDirectory, .critical), (.mixedNamingConvention, .warning), (.deepNesting, .warning),
          (.barrelBloat, .warning), (.catchAllDirectory, .critical), (.godDirectory, .info),
          (.circularDependency, .warning)]
    ∧ a'.findings.map (fun f => (f.kind, f.severity))
        = [(.godDirectory, .warning), (.circularDependency, .warning)]
    ∧ (∀ f' ∈ a'.findings, ∃ f ∈ a.findings, f'.Milder f)
    ∧ a'.findings.length ≤ a.findings.length
    ∧ a'.circular = a.circular ∧ a'.stats = a.stats := by
  have hraised : strictConfig.Raised laxConfig := by constructor <;> decide
  have hstrict : (analyze faultyDisk ⟨true, ["r"]⟩ strictConfig []).toOption.map
      (fun a => a.findings.map fun f => (f.kind, f.severity))
        = some [(.godDirectory, .critical), (.mixedNamingConvention, .warning),
          (.deepNesting, .warning), (.barrelBloat, .warning), (.catchAllDirectory, .critical),
          (.godDirectory, .info), (.circularDependency, .warning)] := by
    decide +kernel
  have hlax : (analyze faultyDisk ⟨true, ["r"]⟩ laxConfig []).toOption.map
      (fun a => a.findings.map fun f => (f.kind, f.severity))
        = some [(.godDirectory, .warning), (.circularDependency, .warning)] := by
    decide +kernel
  obtain ⟨a, ha, hfound⟩ := exists_ok_of_map_toOption hstrict
  obtain ⟨a', ha', hfound'⟩ := exists_ok_of_map_toOption hlax
  exact ⟨a, a', hraised, ha, ha', hfound, hfound', (analyze_antitone hraised).2 a a' ha ha'⟩

end Organization

end RepoSurvey
