import RepoSurvey.Proofs.Organization.CircularImports

/-!
# What the findings on the organization name

A finding on the organization names directories and scripts of the inventory, and the inventory
is made of what the walk visits.

* `Inventory.Names`: a directory or a script of an inventory;
* `Inventory.names_ofEntries`: each is visited, or the directory of something visited;
* `Organization.onInventory_of_mem_findings`: findings name nothing else, and those on circular
  imports name scripts.
-/

namespace RepoSurvey

/-! ## The inventory -/

namespace Inventory

/-- A text names something in an inventory: a directory with scripts in it, a directory, or a
script. -/
inductive Names (i : Inventory) : String → Prop
  | holding {directory : String} : directory ∈ i.filesByDirectory.names → Names i directory
  | directory {path : List String} : path ∈ i.directories → Names i (Path.joined path)
  | script {path : List String} : path ∈ i.files → Names i (Path.joined path)

theorem directories_foldl_add (entries : List WalkEntry) (i : Inventory) :
    (entries.foldl add i).directories
      = i.directories ++ (entries.filter (·.isDirectory)).map (·.path) := by
  induction entries generalizing i with
  | nil => simp
  | cons e entries ih =>
    rw [List.foldl_cons, ih]
    cases hd : e.isDirectory with
    | true => simp [add, addDirectory, hd]
    | false => cases hs : SourceFile.isScript e.name <;> simp [add, addFile, hd, hs]

/-- One more entry makes its directory one with scripts in it, if any. -/
theorem mem_names_add {i : Inventory} {e : WalkEntry} {directory : String}
    (h : directory ∈ (i.add e).filesByDirectory.names) :
    directory ∈ i.filesByDirectory.names ∨ directory = directoryText e.path := by
  unfold add at h
  split at h
  · exact Or.inl h
  · split at h
    · simp only [addFile, Table.adjust, Table.names_put] at h
      split at h
      · exact Or.inl h
      · simpa using h
    · exact Or.inl h

theorem mem_names_foldl_add {entries : List WalkEntry} {i : Inventory} {directory : String}
    (h : directory ∈ (entries.foldl add i).filesByDirectory.names) :
    directory ∈ i.filesByDirectory.names ∨ ∃ e ∈ entries, directory = directoryText e.path := by
  induction entries generalizing i with
  | nil => exact Or.inl h
  | cons e entries ih =>
    rcases ih h with hadd | ⟨other, hother, heq⟩
    · rcases mem_names_add hadd with hold | heq
      · exact Or.inl hold
      · exact Or.inr ⟨e, List.mem_cons_self, heq⟩
    · exact Or.inr ⟨other, List.mem_cons_of_mem e hother, heq⟩

/-- What is named in an inventory is in the listing it is made of, or is the directory of something
in it. -/
theorem names_ofEntries {entries : List WalkEntry} {s : String} (h : Names (ofEntries entries) s) :
    ∃ e ∈ entries, s = e.text ∨ s = directoryText e.path := by
  cases h with
  | holding hdirectory =>
    rcases mem_names_foldl_add hdirectory with hempty | ⟨e, he, heq⟩
    · cases hempty
    · exact ⟨e, he, Or.inr heq⟩
  | directory hpath =>
    rw [ofEntries, directories_foldl_add] at hpath
    obtain ⟨e, he, rfl⟩ := List.mem_map.mp hpath
    exact ⟨e, List.mem_of_mem_filter he, Or.inl rfl⟩
  | script hpath =>
    rw [files_ofEntries] at hpath
    obtain ⟨e, he, rfl⟩ := List.mem_map.mp hpath
    exact ⟨e, List.mem_of_mem_filter he, Or.inl rfl⟩

end Inventory

/-! ## The findings -/

namespace Organization

variable {disk : Disk} {root : Path} {c : Config} {i : Inventory} {skip : NameSet}

/-- The kinds of findings on the organization. -/
def findingKinds : List FindingKind := .circularDependency :: checkedKinds

/-- What a finding on the organization has: it is of one of their kinds, names something in the
inventory, and scripts only if it is on circular imports. -/
structure OnInventory (i : Inventory) (f : Finding) : Prop where
  kind : f.kind ∈ findingKinds
  domain : f.domain = domain
  names : ∀ s ∈ f.paths, i.Names s
  circular : f.kind = .circularDependency → ∀ s ∈ f.paths, ∃ path ∈ i.files, s = Path.joined path

theorem names_of_mem_reportable {texts : Contents} (htexts : ∀ e ∈ texts, e.1 ∈ i.files)
    {s : String} (hs : s ∈ reportable i texts) : i.Names s := by
  simp only [reportable, List.mem_append, List.mem_map] at hs
  rcases hs with (hs | ⟨path, hpath, rfl⟩) | ⟨e, he, rfl⟩
  · exact .holding hs
  · exact .directory hpath
  · exact .script (htexts e he)

theorem mem_files_of_mem_contents {limit : Int} {e : List String × List Char}
    (he : e ∈ contents disk root i limit) : e.1 ∈ i.files := by
  obtain ⟨path, hpath, htext⟩ := List.mem_filterMap.mp he
  split at htext
  · cases htext
  · split at htext
    · cases htext
      exact hpath
    · cases htext

/-- The members of a circular import are scripts of the inventory. -/
theorem exists_script_of_mem_cycles (hfiles : ∀ p ∈ i.files, p ≠ []) {limit : Nat}
    {found : List (List String)} (h : cycles disk root i limit = .ok found) {cycle : List String}
    (hcycle : cycle ∈ found) {s : String} (hs : s ∈ cycle) :
    ∃ path ∈ i.files, s = Path.joined path := by
  obtain ⟨g, hg, h⟩ := bind_eq_ok_iff.mp h
  cases h
  -- a member is imported by the one before it, so it is a script
  obtain ⟨importer, himporter⟩ := exists_step_to hs
  have hstep := (Digraph.cycle_of_mem_cycles hcycle).steps _ himporter
  obtain ⟨_, q, himports, _, hjoined⟩ := (adj_importGraph hfiles hg importer s).mp hstep
  exact ⟨q, himports.target, hjoined.symm⟩

/-- The findings of an analysis are on the inventory. -/
theorem onInventory_of_mem_findings (hnamed : disk.tree.Named) {a : Analysis}
    (h : analyze disk root c skip = .ok a) {f : Finding} (hf : f ∈ a.findings) :
    OnInventory (Inventory.collect disk root (NameSet.union skip c.skipDirs)) f := by
  have hfiles : ∀ p ∈ (Inventory.collect disk root (NameSet.union skip c.skipDirs)).files, p ≠ [] :=
    fun p hp => (Inventory.proper_of_mem_files hnamed hp).1
  obtain ⟨found, hfound, h⟩ := bind_eq_ok_iff.mp h
  obtain ⟨circular, hcircular, h⟩ := bind_eq_ok_iff.mp h
  cases h
  rcases List.mem_append.mp hf with hf | hf
  · obtain ⟨hkind, hdomain, s, hs, hpaths⟩ := of_mem_checkAll hf
    have hnames := names_of_mem_reportable (fun e he => mem_files_of_mem_contents he) hs
    refine ⟨List.mem_cons_of_mem _ hkind, hdomain, fun t ht => ?_,
      fun hcycle => absurd hcycle (kind_ne_of_mem_checkAll hf)⟩
    rw [hpaths, List.mem_singleton] at ht
    rwa [ht]
  · obtain ⟨cycle, hcycle, hfinding⟩ := (mem_of_mapM_eq_ok hcircular f).mp hf
    have hscript : ∀ s ∈ f.paths, ∃ path ∈ (Inventory.collect disk root
        (NameSet.union skip c.skipDirs)).files, s = Path.joined path := by
      intro s hs
      rw [(Circular.of_finding hfinding).2.1] at hs
      exact exists_script_of_mem_cycles hfiles hfound hcycle hs
    have hkind : f.kind ∈ findingKinds :=
      List.mem_cons.mpr (Or.inl (Circular.of_finding hfinding).1)
    refine ⟨hkind, Circular.domain_of_finding hfinding, fun s hs => ?_, fun _ => hscript⟩
    obtain ⟨path, hpath, rfl⟩ := hscript s hs
    exact .script hpath

end Organization

end RepoSurvey
