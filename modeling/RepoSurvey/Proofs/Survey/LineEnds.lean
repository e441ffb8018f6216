import RepoSurvey.Proofs.Disk.Correspondence
import RepoSurvey.Proofs.Survey.Recognition
import RepoSurvey.Proofs.Text.LineEnds

/-!
# Line ends do not matter

Sources, manifests, style configs and the ignore file are all read with line feeds for line ends,
and their size is that of what is read. So files may end their lines either way, each on its own.

* `Disk.withReturns`: a disk with carriage returns put before all line feeds;
* `Survey.run_eq_of_sameLines`: two disks whose files hold the same lines are surveyed alike;
* `Survey.run_withReturns`: and so are a disk and the one with carriage returns.
-/

namespace RepoSurvey

variable {R : List UInt8 → List UInt8 → Prop} {disk disk' : Disk}

namespace Disk

/-- The disk with carriage returns before the line feeds of all files. -/
def withReturns (disk : Disk) : Disk := disk.mapFiles fun _ => Utf8.withReturns

theorem corresponds_withReturns
    (h : ∀ path bytes, disk.tree.at? path = some (.file bytes) → 0x0D ∉ bytes) :
    Corresponds Utf8.SameLines disk disk.withReturns :=
  corresponds_mapFiles fun path bytes hat => .returns (h path bytes hat)

end Disk

namespace Disk.Corresponds

variable (hR : ∀ b b', R b b' → Utf8.ReadsAlike b b')

include hR

theorem readLenient?_eq (h : disk.Corresponds R disk') (path : Path) :
    disk.readLenient? path = disk'.readLenient? path := by
  rw [readLenient?, readLenient?, Option.map_eq_bind, Option.map_eq_bind]
  exact h.bind_bytes?_eq (fun b b' hb => congrArg some (hR b b' hb).lenient) path

theorem readStrict?_eq (h : disk.Corresponds R disk') (path : Path) :
    disk.readStrict? path = disk'.readStrict? path := by
  rw [readStrict?, readStrict?, Option.map_bind, Option.map_bind]
  exact h.bind_bytes?_eq (fun b b' hb => (hR b b' hb).strict) path

end Disk.Corresponds

namespace Survey

/-- Disks with files that read alike look alike, whatever the limit. -/
theorem looksAlike_of_readsAlike (hR : ∀ b b', R b b' → Utf8.ReadsAlike b b')
    (h : disk.Corresponds R disk') (hdisk : disk.WellFormed) (hdisk' : disk'.WellFormed)
    {place : List String} (hplace : disk.IsDirectory place) (limit : Int) :
    LooksAlike limit place disk disk' where
  left := hdisk
  right := hdisk'
  directory := hplace
  stack := h.stack
  entries := fun skip => by rw [h.entries_eq hdisk hdisk']
  isFile := fun p _ => h.isFile_eq p
  within := fun p _ => Disk.readWithin?_congr (h.readLenient?_eq hR p) limit
  strict := fun p _ _ _ => h.readStrict?_eq hR p

/-- If two disks differ in nothing but carriage returns before the line feeds of some files, then
everything that a survey gives is the same on both. -/
theorem run_eq_of_sameLines (hdisk : disk.WellFormed) (hdisk' : disk'.WellFormed)
    (h : disk.Corresponds Utf8.SameLines disk') (path : Path) (c : Config) :
    run disk path c = run disk' path c := by
  have hR : ∀ b b', Utf8.SameLines b b' → Utf8.ReadsAlike b b' := fun _ _ hb => hb.readsAlike
  rcases h.destination_cases path with ⟨e, he, he'⟩ | ⟨found, found', hfound, hfound', hkind⟩
  · rw [run_of_error he, run_of_error he']
  by_cases hdirectory : ∃ place, found = .directory place
  · obtain ⟨place, rfl⟩ := hdirectory
    cases hkind
    have hplace := (Disk.resolve_of_destination hdisk hfound).2.isDirectory hdisk
    have hlooks := looksAlike_of_readsAlike hR h hdisk hdisk' hplace (c.fileSize : Nat)
    rw [run_of_directory hfound, run_of_directory hfound']
    exact hlooks.ofDirectory_eq fun p _ => h.readLenient?_eq hR p
  · have hno := not_exists.mp hdirectory
    have hno' : ∀ place, found' ≠ .directory place := by
      rintro place rfl
      cases hkind
      exact hno place rfl
    rw [run_of_not_directory hfound hno, run_of_not_directory hfound' hno', hkind.isFile_eq.2]

/-- Line ends do not matter. If no file holds a carriage return, then everything that a survey gives
is the same with carriage returns before all line feeds, whatever the files hold, and so is the
error if it fails. -/
theorem run_withReturns (hdisk : disk.WellFormed)
    (hfree : ∀ path bytes, disk.tree.at? path = some (.file bytes) → 0x0D ∉ bytes)
    (path : Path) (c : Config) : run disk.withReturns path c = run disk path c :=
  (run_eq_of_sameLines hdisk (hdisk.mapFiles _) (Disk.corresponds_withReturns hfree) path c).symm

/-- A repository with an ignore file, a manifest, and two scripts, one of them not UTF-8 and with
forty characters, as many as are read. -/
def linedDisk : Disk where
  tree := .directory [("r", .directory [
    (".wheelscanignore", .file (Utf8.encode "# old\nlegacy\n".toList)),
    ("a.ts", .file (Utf8.encode "import './b'\n\nd.toLocaleDateString()".toList
      ++ [0xe2, 0x0a, 0x82, 0x0a])),
    ("b.ts", .file (Utf8.encode "\nimport './a'\n".toList)),
    ("go.mod", .file (Utf8.encode "module m\nrequire (\n  x v1\n)\n".toList)),
    ("legacy", .directory [("c.ts", .file (Utf8.encode "navigator.language\n".toList))])])]

/-- The size of a file is counted after its line ends are read, so that the script of forty
characters is searched either way. -/
theorem run_withReturns_lined : linedDisk.WellFormed
    ∧ (∀ path bytes, linedDisk.tree.at? path = some (.file bytes) → 0x0D ∉ bytes)
    ∧ ∃ r, run linedDisk ⟨true, ["r"]⟩ { fileSize := ⟨40, by decide⟩ } = .ok r
      ∧ r.detections.map (fun d => (d.file, d.lines.start, d.lines.stop)) = [("a.ts", 1, 5)]
      ∧ run linedDisk.withReturns ⟨true, ["r"]⟩ { fileSize := ⟨40, by decide⟩ } = .ok r := by
  have hdisk : linedDisk.WellFormed := by decide +kernel
  have hreturns : Disk.everyFile (fun _ bytes => !bytes.contains 0x0D) linedDisk = true := by
    decide +kernel
  have hfree : ∀ path bytes, linedDisk.tree.at? path = some (.file bytes) → 0x0D ∉ bytes :=
    fun path bytes hat => by simpa using Disk.apply_of_everyFile hreturns hat
  have hfound : (run linedDisk ⟨true, ["r"]⟩ { fileSize := ⟨40, by decide⟩ }).toOption.map
      (fun r => r.detections.map fun d => (d.file, d.lines.start, d.lines.stop))
        = some [("a.ts", 1, 5)] := by
    decide +kernel
  obtain ⟨r, hr, hdetections⟩ := exists_ok_of_map_toOption hfound
  refine ⟨hdisk, hfree, r, hr, hdetections, ?_⟩
  rw [run_withReturns hdisk hfree, hr]

end Survey

end RepoSurvey
