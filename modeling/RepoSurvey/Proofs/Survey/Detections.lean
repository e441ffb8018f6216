import Mathlib.Algebra.Order.Floor.Div
import RepoSurvey.Proofs.Survey.Places

/-!
# The detections of a survey

Files are searched batch by batch, which comes to the same as searching them one after another.

* `Survey.CutsInto`, `Survey.cutsInto_batches`: a list cut into pieces of a size;
* `Survey.detectAll_eq_mapM`, `Survey.run_eq_of_batching`: how the files are cut does not matter;
* `Survey.FoundIn`, `Survey.Detected`: what is found in the files of a walk;
* `Survey.detections_of_run`: the detections of a result.
-/

namespace RepoSurvey.Survey

variable {α : Type} {disk : Disk} {root : Path} {c : Config} {skip : NameSet}

/-! ## Batches -/

/-- Pieces make up a list; none is empty, none is too long, and there are no more than it takes. -/
structure CutsInto (size : Nat) (items : List α) (pieces : List (List α)) : Prop where
  flatten : pieces.flatten = items
  nonempty : ∀ piece ∈ pieces, piece ≠ []
  bounded : ∀ piece ∈ pieces, piece.length ≤ size
  count : pieces.length = items.length ⌈/⌉ size

theorem of_mem_batchesFrom {size : Positive} {fuel : Nat} {items piece : List α}
    (h : piece ∈ batchesFrom size.1 fuel items) : piece ≠ [] ∧ piece.length ≤ size := by
  induction fuel generalizing items with
  | zero => simp [batchesFrom] at h
  | succ fuel ih =>
    cases items with
    | nil => simp [batchesFrom] at h
    | cons a rest =>
      have positive := size.2
      rw [batchesFrom] at h
      rcases List.mem_cons.mp h with rfl | h
      · refine ⟨?_, List.length_take_le _ _⟩
        intro hempty
        rcases List.take_eq_nil_iff.mp hempty with hsize | hnil
        · omega
        · cases hnil
      · exact ih h

/-- One piece is taken off. -/
theorem ceilDiv_eq_succ {size n : Nat} (hsize : 1 ≤ size) (hn : 1 ≤ n) :
    n ⌈/⌉ size = (n - size) ⌈/⌉ size + 1 := by
  rw [Nat.ceilDiv_eq_add_pred_div, Nat.ceilDiv_eq_add_pred_div]
  by_cases hlast : n ≤ size
  · have hnone : (n - size + size - 1) / size = 0 := Nat.div_eq_of_lt (by omega)
    have hone : (n + size - 1) / size = 1 := by
      rw [show n + size - 1 = (n - 1) + size by omega, Nat.add_div_right _ hsize,
        Nat.div_eq_of_lt (by omega)]
    omega
  · rw [show n + size - 1 = (n - size + size - 1) + size by omega, Nat.add_div_right _ hsize]

theorem length_batchesFrom (size : Positive) (fuel : Nat) (items : List α)
    (h : items.length ≤ fuel) :
    (batchesFrom size.1 fuel items).length = items.length ⌈/⌉ size.1 := by
  induction fuel generalizing items with
  | zero =>
    have hnil : items = [] := List.length_eq_zero_iff.mp (by omega)
    simp [batchesFrom, hnil]
  | succ fuel ih =>
    cases items with
    | nil => simp [batchesFrom]
    | cons a rest =>
      have positive := size.2
      have hrest : ((a :: rest).drop size.1).length ≤ fuel := by
        simp only [List.length_drop, List.length_cons] at h ⊢
        omega
      rw [batchesFrom, List.length_cons, ih _ hrest, List.length_drop]
      exact (ceilDiv_eq_succ positive (by simp)).symm

theorem cutsInto_batches (size : Positive) (items : List α) :
    CutsInto size.1 items (batches size items) where
  flatten := flatten_batches size items
  nonempty := fun _ hpiece => (of_mem_batchesFrom hpiece).1
  bounded := fun _ hpiece => (of_mem_batchesFrom hpiece).2
  count := length_batchesFrom size items.length items (Nat.le_refl _)

/-! ## One file after another -/

/-- The search of one file of a walk, with the limits of a config. -/
def searchFile (disk : Disk) (root : Path) (c : Config) (e : WalkEntry) :
    Except (List Failure) (List Detection) :=
  detectFile disk Catalog.rules (Path.below root e.path) e.text c.contextRadius
    (c.fileSize : Nat)

theorem detectBatch_eq (disk : Disk) (root : Path) (c : Config) :
    detectBatch disk root c
      = fun batch => (batch.mapM (searchFile disk root c)).map List.flatten := by
  funext batch
  show (batch.mapM (searchFile disk root c) >>= fun found => pure found.flatten) = _
  cases batch.mapM (searchFile disk root c) <;> rfl

/-- The detections of the files, one file after another. -/
theorem detectAll_eq_mapM (disk : Disk) (root : Path) (c : Config) (files : List WalkEntry) :
    detectAll disk root c files
      = ((files.mapM (searchFile disk root c)).map List.flatten).mapError .invalid := by
  have hlists := flatten_mapM_lists (searchFile disk root c) (batches c.batchSize files)
  rw [flatten_batches, ← detectBatch_eq] at hlists
  rw [← hlists]
  unfold detectAll
  cases (batches c.batchSize files).mapM (detectBatch disk root c) <;> rfl

theorem detectAll_eq_ok {files : List WalkEntry} {ds : List Detection}
    (h : detectAll disk root c files = .ok ds) :
    ∃ found, files.mapM (searchFile disk root c) = .ok found ∧ found.flatten = ds := by
  rw [detectAll_eq_mapM] at h
  exact map_eq_ok_iff.mp (mapError_eq_ok_iff.mp h)

/-- Every detection is in one of the files, and of a rule of the catalog. -/
theorem exists_rule_of_mem_detectAll {files : List WalkEntry} {ds : List Detection}
    (h : detectAll disk root c files = .ok ds) {d : Detection} (hd : d ∈ ds) :
    ∃ e ∈ files, ∃ rule ∈ Catalog.rules, d.Of e.text rule := by
  obtain ⟨found, hfound, rfl⟩ := detectAll_eq_ok h
  obtain ⟨e, he, ds, hds, hd⟩ := exists_of_mem_flatten hfound hd
  refine ⟨e, he, ?_⟩
  unfold searchFile detectFile at hds
  split at hds
  · cases hds
    simp at hd
  · exact Catalog.exists_rule_of_mem_detect hds hd

/-- Neither the size of the batches nor the display of progress changes what a survey gives. -/
theorem run_eq_of_batching (disk : Disk) (path : Path) (c : Config) (size : Positive)
    (shown : Bool) :
    run disk path { c with batchSize := size, showProgress := shown } = run disk path c := by
  unfold run ofDirectory
  simp only [detectAll_eq_mapM]
  rfl

/-! ## All together -/

/-- The files of a walk that are searched. -/
def sources (disk : Disk) (root : Path) (skip : NameSet) : List WalkEntry :=
  (Walk.files disk root skip).filter fun e => SourceFile.isSource e.name

/-- What is found in a file: nothing if it cannot be read, and what its text gives if it can. -/
inductive FoundIn (disk : Disk) (root : Path) (c : Config) (e : WalkEntry) :
    List Detection → Prop
  | unreadable : disk.readLenient? (Path.below root e.path) = none →
      FoundIn disk root c e []
  | readable {text : List Char} {ds : List Detection} :
      disk.readLenient? (Path.below root e.path) = some text →
      Catalog.detect Catalog.rules e.text text c.contextRadius (c.fileSize : Nat) = .ok ds →
      FoundIn disk root c e ds

theorem foundIn_of_searchFile {e : WalkEntry} {ds : List Detection}
    (h : searchFile disk root c e = .ok ds) : FoundIn disk root c e ds := by
  unfold searchFile detectFile at h
  split at h
  · rename_i hread
    cases h
    exact .unreadable hread
  · rename_i text hread
    exact .readable hread h

/-- What the detections of a result have: they are what is found in the files of the walk, one file
after another, and the batches are these files cut into pieces. -/
structure Detected (disk : Disk) (root : Path) (c : Config) (skip : NameSet)
    (ds : List Detection) : Prop where
  inOrder : ∃ found, List.Forall₂ (FoundIn disk root c) (sources disk root skip) found
    ∧ found.flatten = ds
  batches : CutsInto c.batchSize (sources disk root skip)
    (batches c.batchSize (sources disk root skip))

theorem sources_eq (disk : Disk) (root : Path) (skip : NameSet) :
    ((Walk.entries disk root skip).filter fun e => !e.isDirectory && SourceFile.isSource e.name)
      = sources disk root skip := by
  rw [sources, Walk.files, List.filter_filter]
  simp only [Bool.and_comm]

theorem detected_of_detectAll {ds : List Detection}
    (h : detectAll disk root c (sources disk root skip) = .ok ds) :
    Detected disk root c skip ds := by
  obtain ⟨found, hfound, hjoined⟩ := detectAll_eq_ok h
  have hall := (mapM_eq_ok_iff.mp hfound).imp fun _ _ hds => foundIn_of_searchFile hds
  exact ⟨⟨found, hall, hjoined⟩, cutsInto_batches c.batchSize _⟩

/-- The detections of a result are those of the files of the walk that are searched, in the order
of the walk, each of a rule of the catalog. They do not depend on the size of the batches. -/
theorem detections_of_run (hdisk : disk.WellFormed) {path : Path} {r : SurveyResult}
    (hr : run disk path c = .ok r) :
    (∃ root, disk.resolve path = .ok root
      ∧ ((disk.directory? root = none ∧ r.detections = [])
        ∨ ∃ skip, Skip.load disk root c.skipDirs = .ok skip
          ∧ Detected disk root c skip r.detections))
      ∧ (∀ size shown,
        run disk path { c with batchSize := size, showProgress := shown } = .ok r)
      ∧ ∀ d ∈ r.detections, ∃ rule ∈ Catalog.rules, d.Of d.file rule := by
  have hbatching : ∀ size shown,
      run disk path { c with batchSize := size, showProgress := shown } = .ok r := by
    intro size shown
    rw [run_eq_of_batching, hr]
  obtain ⟨root, hroot, ⟨hnone, rfl⟩ | ⟨place, rfl, _, hdirectory⟩⟩ := run_eq_ok hdisk hr
  · exact ⟨⟨root, hroot, Or.inl ⟨hnone, rfl⟩⟩, hbatching, by simp [SurveyResult.nothing]⟩
  · obtain ⟨skip, _, _, _, hskip, _, hdetections, _⟩ := ofDirectory_eq_ok hdirectory
    rw [sources_eq] at hdetections
    refine ⟨⟨_, hroot, Or.inr ⟨skip, hskip, detected_of_detectAll hdetections⟩⟩, hbatching, ?_⟩
    intro d hd
    obtain ⟨e, _, rule, hrule, hof⟩ := exists_rule_of_mem_detectAll hdetections hd
    exact ⟨rule, hrule, hof.file ▸ hof⟩

/-- A repository of three files that are searched, one of them not UTF-8, and one that is not. -/
def searchedDisk : Disk where
  tree := .directory [("r", .directory [
    ("a.ts", .file (Utf8.encode "d.toLocaleDateString()".toList)),
    ("b.md", .file (Utf8.encode "toLocaleDateString()".toList)),
    ("c.js", .file (0xff :: Utf8.encode "\nnavigator.language".toList)),
    ("lib", .directory [("d.py", .file [])])])]

theorem detections_of_run_searched : searchedDisk.WellFormed
    ∧ ∃ r, run searchedDisk ⟨true, ["r"]⟩ { batchSize := ⟨2, by decide⟩ } = .ok r
      ∧ r.detections.map (fun d => (d.file, d.rule)) = [("a.ts", "i18n-manual-locale-detection"),
        ("c.js", "i18n-manual-locale-detection")]
      ∧ run searchedDisk ⟨true, ["r"]⟩ {} = .ok r
      ∧ ∀ d ∈ r.detections, ∃ rule ∈ Catalog.rules, d.Of d.file rule := by
  have hdisk : searchedDisk.WellFormed := by decide +kernel
  have hfound : (run searchedDisk ⟨true, ["r"]⟩ { batchSize := ⟨2, by decide⟩ }).toOption.map
      (fun r => r.detections.map fun d => (d.file, d.rule))
        = some [("a.ts", "i18n-manual-locale-detection"),
          ("c.js", "i18n-manual-locale-detection")] := by
    decide +kernel
  obtain ⟨r, hr, hlist⟩ := exists_ok_of_map_toOption hfound
  obtain ⟨_, hbatching, hrules⟩ := detections_of_run hdisk hr
  exact ⟨hdisk, r, hr, hlist, hbatching ⟨50, by decide⟩ true, hrules⟩

end RepoSurvey.Survey
