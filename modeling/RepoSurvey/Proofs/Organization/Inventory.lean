import RepoSurvey.Proofs.Disk.Listing
import RepoSurvey.Proofs.Organization.Distinct
import RepoSurvey.Proofs.Table

/-!
# The inventory of a walk, exactly

An inventory sorts what a walk visits: every script is in it once, in the group of its directory
and, if it has a naming convention, in the count of that convention; and every directory is.

* `Inventory.foldl_add_eq`: what listings add to each part of an inventory;
* `Inventory.group_eq`, `Inventory.perm_groups`: the scripts of a directory, and those of all;
* `Inventory.sum_foldl_countConvention`: the counts of all conventions;
* `Inventory.Exact`: an inventory holds exactly what is in a listing;
* `Inventory.collect_exact`: the inventory of a walk does.
-/

namespace RepoSurvey

/-- Names in one directory are in order where their paths are. -/
theorem Path.lt_of_concat_lt {above : List String} {name other : String}
    (h : above ++ [name] < above ++ [other]) : name < other := by
  induction above with
  | nil =>
    rw [List.nil_append, List.nil_append, List.cons_lt_cons_iff] at h
    rcases h with h | ⟨_, h⟩
    · exact h
    · exact absurd h (List.lt_irrefl _)
  | cons s above ih =>
    rw [List.cons_append, List.cons_append, List.cons_lt_cons_iff] at h
    rcases h with h | ⟨_, h⟩
    · exact absurd h (String.lt_irrefl s)
    · exact ih h

theorem Convention.text_injective : Function.Injective Convention.text := by
  intro c d h
  cases c <;> cases d <;> first | rfl | exact absurd h (by decide)

namespace Inventory

/-! ## The parts of an inventory -/

/-- The scripts of a listing. -/
def scriptsOf (entries : List WalkEntry) : List WalkEntry :=
  entries.filter fun e => !e.isDirectory && SourceFile.isScript e.name

/-- The directories of a listing. -/
def directoriesOf (entries : List WalkEntry) : List WalkEntry := entries.filter (·.isDirectory)

/-- What one more listing adds to each part of an inventory. -/
theorem foldl_add_eq (entries : List WalkEntry) (i : Inventory) :
    entries.foldl add i =
      { filesByDirectory := Table.grouped (fun e => directoryText e.path) WalkEntry.name
          (scriptsOf entries) i.filesByDirectory
        files := i.files ++ (scriptsOf entries).map (·.path)
        directories := i.directories ++ (directoriesOf entries).map (·.path)
        depth := ((directoriesOf entries).map WalkEntry.depth).foldl max i.depth
        conventions := (scriptsOf entries).foldl (fun counts e => countConvention e.name counts)
          i.conventions } := by
  unfold Table.grouped scriptsOf directoriesOf
  induction entries generalizing i with
  | nil => simp
  | cons e entries ih =>
    rw [List.foldl_cons, ih]
    cases hd : e.isDirectory with
    | true => simp [add, addDirectory, hd]
    | false => cases hs : SourceFile.isScript e.name <;> simp [add, addFile, hd, hs]

theorem directories_ofEntries (entries : List WalkEntry) :
    (ofEntries entries).directories = (directoriesOf entries).map (·.path) :=
  directories_foldl_add entries empty

theorem depth_ofEntries (entries : List WalkEntry) :
    (ofEntries entries).depth = ((directoriesOf entries).map WalkEntry.depth).max?.getD 0 := by
  have hfold : (ofEntries entries).depth
      = ((directoriesOf entries).map WalkEntry.depth).foldl max 0 := by
    rw [ofEntries, foldl_add_eq]
    rfl
  rw [hfold, List.foldl_max, Nat.zero_max]

/-! ## Groups -/

section Groups

variable {entries : List WalkEntry} {directory : String} {names : List String}

theorem filesByDirectory_ofEntries (entries : List WalkEntry) :
    (ofEntries entries).filesByDirectory = Table.grouped (fun e => directoryText e.path)
      WalkEntry.name (scriptsOf entries) [] := by
  rw [ofEntries, foldl_add_eq]
  rfl

/-- The group of a directory holds the names of the scripts in it, and there are some. -/
theorem group_eq (h : (directory, names) ∈ (ofEntries entries).filesByDirectory) :
    names ≠ [] ∧ names = ((scriptsOf entries).filter fun e =>
      directoryText e.path = directory).map WalkEntry.name := by
  have hget := Table.get?_eq_some_of_mem (nodup_names_ofEntries entries) h
  rw [filesByDirectory_ofEntries] at hget h
  have hnames : ((Table.grouped (fun e => directoryText e.path) WalkEntry.name (scriptsOf entries)
      []).get? directory).getD [] = [] ++ ((scriptsOf entries).filter fun e =>
        directoryText e.path = directory).map WalkEntry.name :=
    Table.getD_get?_grouped (scriptsOf entries) [] directory
  rw [hget] at hnames
  exact ⟨Table.ne_nil_of_mem_grouped (scriptsOf entries) (by simp) _ h, by simpa using hnames⟩

end Groups

section Walked

variable {disk : Disk} {root : Path} {skip : NameSet} {directory : String} {names : List String}

/-- Names in a group are in order: their paths have the directory in common, and are in the order
of the walk. -/
theorem pairwise_group (hdisk : disk.WellFormed)
    (h : (directory, names) ∈ (collect disk root skip).filesByDirectory) :
    names.Pairwise (· < ·) := by
  have hwalked := List.pairwise_map.mp (Walk.ascending_entries hdisk.distinct root skip)
  rw [(group_eq h).2, List.pairwise_map]
  refine (hwalked.sublist (List.filter_sublist.trans List.filter_sublist)).imp_of_mem ?_
  intro e f he hf hlt
  obtain ⟨he, hdirectory⟩ := List.mem_filter.mp he
  obtain ⟨hf, hsame⟩ := List.mem_filter.mp hf
  obtain ⟨hne, hproper⟩ := Walk.proper_of_mem_entries hdisk.named (List.mem_of_mem_filter he)
  obtain ⟨hne', hproper'⟩ := Walk.proper_of_mem_entries hdisk.named (List.mem_of_mem_filter hf)
  have habove : e.path.dropLast = f.path.dropLast := by
    refine Path.text_relative_inj (fun s hs => ?_) (fun s hs => ?_) ?_
    · exact (hproper s (List.dropLast_subset _ hs)).toProper
    · exact (hproper' s (List.dropLast_subset _ hs)).toProper
    · exact (of_decide_eq_true hdirectory).trans (of_decide_eq_true hsame).symm
  rw [← List.dropLast_concat_getLast hne, ← List.dropLast_concat_getLast hne', habove] at hlt
  rw [WalkEntry.name, WalkEntry.name, List.getLastD_eq_getLast?, List.getLastD_eq_getLast?,
    List.getLast?_eq_some_getLast hne, List.getLast?_eq_some_getLast hne']
  exact Path.lt_of_concat_lt hlt

/-- A group is that of the top or of a directory of the inventory. -/
theorem directory_of_group (hdisk : disk.WellFormed)
    (h : (directory, names) ∈ (collect disk root skip).filesByDirectory) :
    directory = "."
      ∨ ∃ path ∈ (collect disk root skip).directories, directory = Path.joined path := by
  obtain ⟨hne, hnames⟩ := group_eq h
  obtain ⟨name, hname⟩ := List.exists_mem_of_ne_nil names hne
  rw [hnames] at hname
  obtain ⟨e, he, _⟩ := List.mem_map.mp hname
  obtain ⟨he, hdirectory⟩ := List.mem_filter.mp he
  have htext : (Path.relative e.path.dropLast).text = directory := of_decide_eq_true hdirectory
  rcases Walk.dropLast_mem_entries hdisk (List.mem_of_mem_filter he) with htop | hwalked
  · rw [htop] at htext
    exact Or.inl htext.symm
  · refine Or.inr ⟨e.path.dropLast, ?_, ?_⟩
    · rw [collect, directories_ofEntries]
      exact List.mem_map.mpr ⟨_, List.mem_filter.mpr ⟨hwalked, rfl⟩, rfl⟩
    · rw [← htext, Path.text_relative (Walk.proper_of_mem_entries hdisk.named hwalked).1]

/-- The names in the groups, behind those of their directories, are the scripts. -/
theorem perm_groups (hdisk : disk.WellFormed) (root : Path) (skip : NameSet) :
    ((collect disk root skip).filesByDirectory.flatMap fun e =>
        e.2.map (Path.ofText e.1).child).Perm
      ((collect disk root skip).files.map Path.relative) := by
  have hgroups : ((collect disk root skip).filesByDirectory.flatMap fun e =>
      e.2.map (Path.ofText e.1).child).Perm ([] ++ (scriptsOf (Walk.entries disk root skip)).map
        fun e => (Path.ofText (directoryText e.path)).child e.name) := by
    rw [collect, filesByDirectory_ofEntries]
    exact Table.perm_flatMap_grouped (fun directory => (Path.ofText directory).child) _ []
  have hpaths : ((scriptsOf (Walk.entries disk root skip)).map
      fun e => (Path.ofText (directoryText e.path)).child e.name)
        = (collect disk root skip).files.map Path.relative := by
    rw [collect, files_ofEntries, List.map_map]
    refine List.map_congr_left fun e he => ?_
    obtain ⟨hne, hproper⟩ := Walk.proper_of_mem_entries hdisk.named (List.mem_of_mem_filter he)
    have hread : Path.ofText (directoryText e.path) = Path.relative e.path.dropLast :=
      Path.ofText_text_relative fun s hs => (hproper s (List.dropLast_subset _ hs)).toProper
    have hlast : e.path.dropLast ++ [e.name] = e.path := by
      rw [WalkEntry.name, List.getLastD_eq_getLast?, List.getLast?_eq_some_getLast hne]
      exact List.dropLast_concat_getLast hne
    rw [hread, Path.child, Path.relative, hlast]
    rfl
  rwa [List.nil_append, hpaths] at hgroups

end Walked

/-! ## Conventions -/

/-- The scripts of a listing with a convention, or with none. -/
def countOf (entries : List WalkEntry) (convention : Option Convention) : Nat :=
  (scriptsOf entries).countP fun e => Convention.ofFileName? e.name = convention

theorem getD_get?_countConvention (name : String) (counts : Table Nat) (c : Convention) :
    ((countConvention name counts).get? c.text).getD 0
      = (counts.get? c.text).getD 0 + if Convention.ofFileName? name = some c then 1 else 0 := by
  unfold countConvention
  cases Convention.ofFileName? name with
  | none => simp
  | some d =>
    by_cases hd : d = c
    · simp [Table.getD_get?_adjust, hd]
    · have htext : d.text ≠ c.text := fun heq => hd (Convention.text_injective heq)
      simp [Table.getD_get?_adjust, hd, htext]

theorem sum_countConvention (name : String) (counts : Table Nat) :
    ((countConvention name counts).map (·.2)).sum
        + (if Convention.ofFileName? name = none then 1 else 0)
      = (counts.map (·.2)).sum + 1 := by
  unfold countConvention
  cases Convention.ofFileName? name with
  | none => simp
  | some d => simp [Table.sum_adjust_succ]

theorem conventions_ofEntries (entries : List WalkEntry) :
    (ofEntries entries).conventions
      = (scriptsOf entries).foldl (fun counts e => countConvention e.name counts) [] := by
  rw [ofEntries, foldl_add_eq]
  rfl

/-- The count of a convention after some more scripts. -/
theorem getD_get?_foldl_countConvention (scripts : List WalkEntry) (counts : Table Nat)
    (c : Convention) :
    ((scripts.foldl (fun counts e => countConvention e.name counts) counts).get? c.text).getD 0
      = (counts.get? c.text).getD 0
        + scripts.countP fun e => Convention.ofFileName? e.name = some c := by
  induction scripts generalizing counts with
  | nil => simp
  | cons e scripts ih =>
    rw [List.foldl_cons, ih, getD_get?_countConvention, List.countP_cons]
    simp only [decide_eq_true_eq]
    omega

/-- With the scripts that have no convention, the counts make up all scripts. -/
theorem sum_foldl_countConvention (scripts : List WalkEntry) (counts : Table Nat) :
    ((scripts.foldl (fun counts e => countConvention e.name counts) counts).map (·.2)).sum
        + scripts.countP (fun e => Convention.ofFileName? e.name = none)
      = (counts.map (·.2)).sum + scripts.length := by
  induction scripts generalizing counts with
  | nil => simp
  | cons e scripts ih =>
    have hrest := ih (countConvention e.name counts)
    have hfirst := sum_countConvention e.name counts
    rw [List.foldl_cons, List.countP_cons, List.length_cons]
    simp only [decide_eq_true_eq]
    omega

/-! ## The inventory of a walk -/

/-- An inventory holds exactly what is in a listing. -/
structure Exact (i : Inventory) (entries : List WalkEntry) : Prop where
  /-- The scripts are those of the listing, in its order. -/
  files : i.files = (scriptsOf entries).map (·.path)
  files_nodup : i.files.Nodup
  directories : i.directories = (directoriesOf entries).map (·.path)
  /-- The depth is that of the deepest directory. -/
  depth : i.depth = (i.directories.map List.length).max?.getD 0
  /-- No directory has two groups. -/
  groups_nodup : i.filesByDirectory.names.Nodup
  /-- A group has scripts, in the order of their names. -/
  group : ∀ directory names, (directory, names) ∈ i.filesByDirectory →
    names ≠ [] ∧ names.Pairwise (· < ·)
  /-- A group is that of the top or of a directory of the listing. -/
  group_directory : ∀ directory names, (directory, names) ∈ i.filesByDirectory →
    directory = "." ∨ ∃ path ∈ i.directories, directory = Path.joined path
  /-- The groups hold every script once. -/
  groups : (i.filesByDirectory.flatMap fun e => e.2.map (Path.ofText e.1).child).Perm
    (i.files.map Path.relative)
  conventions : ∀ c : Convention,
    (i.conventions.get? c.text).getD 0 = countOf entries (some c)
  /-- Every script is in the count of a convention or has none. -/
  total : (i.conventions.map (·.2)).sum + countOf entries none = i.files.length

/-- The inventory of a walk holds exactly what is visited. -/
theorem collect_exact {disk : Disk} (hdisk : disk.WellFormed) (root : Path) (skip : NameSet) :
    Exact (collect disk root skip) (Walk.entries disk root skip) where
  files := files_ofEntries _
  files_nodup := nodup_files hdisk root skip
  directories := directories_ofEntries _
  depth := by
    rw [collect, depth_ofEntries, directories_ofEntries, List.map_map]
    rfl
  groups_nodup := nodup_names_ofEntries _
  group := fun directory names h => ⟨(group_eq h).1, pairwise_group hdisk h⟩
  group_directory := fun directory names h => directory_of_group hdisk h
  groups := perm_groups hdisk root skip
  conventions := fun c => by
    rw [collect, conventions_ofEntries, getD_get?_foldl_countConvention]
    simp [countOf, Table.get?]
  total := by
    have htotal := sum_foldl_countConvention (scriptsOf (Walk.entries disk root skip)) []
    have hfiles := congrArg List.length (files_ofEntries (Walk.entries disk root skip))
    rw [collect, conventions_ofEntries, hfiles, List.length_map]
    simpa [countOf, scriptsOf] using htotal

/-- A repository with scripts at its top, and in a directory between whose scripts there is another
one. -/
def interleavedDisk : Disk where
  tree := .directory [("r", .directory [
    ("lib", .directory [("a-b.ts", .file []), ("deep", .directory [("B.tsx", .file [])]),
      ("index.js", .file []), ("notes.md", .file [])]),
    ("main.ts", .file [])])]

theorem collect_exact_interleaved : interleavedDisk.WellFormed
    ∧ (collect interleavedDisk ⟨true, ["r"]⟩ []).filesByDirectory
        = [("lib", ["a-b.ts", "index.js"]), ("lib/deep", ["B.tsx"]), (".", ["main.ts"])]
    ∧ Exact (collect interleavedDisk ⟨true, ["r"]⟩ [])
        (Walk.entries interleavedDisk ⟨true, ["r"]⟩ []) := by
  have hdisk : interleavedDisk.WellFormed := by decide +kernel
  exact ⟨hdisk, by decide +kernel, collect_exact hdisk ⟨true, ["r"]⟩ []⟩

end Inventory

end RepoSurvey
