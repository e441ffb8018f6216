import Mathlib.Data.List.Nodup
import RepoSurvey.Proofs.Disk.Walk

/-!
# The exact listing of a walk

What a walk lists is told by what stands on the disk: directories, files, and links that lead to
files, wherever every directory on the way can be listed and none is passed over.

* `Walk.Pruned`: a directory is passed over, by its name or by its path;
* `Walk.Stands`: something stands at a place that a walk lists;
* `Walk.Listed`: something is to be listed by a walk below a place;
* `Walk.listed_of_visits`, `Walk.visits_of_listed`: that is what a walk is to visit;
* `Walk.mem_entries_iff_listed`: and what it does visit;
* `Walk.Entered`, `Walk.Seen`: a directory that a walk enters, and a file in one;
* `Walk.entries_exact`: the listing is exact, in ascending order and without repetition.
-/

namespace RepoSurvey

namespace Walk

/-- A directory is passed over by its name or by its path from the start of the walk. -/
def Pruned (skip : NameSet) (path : List String) : Prop :=
  ∃ front name, path = front ++ [name]
    ∧ (name ∈ Skip.always ∨ name ∈ skip ∨ Path.joined path ∈ skip)

/-- Something stands at a place of the disk, as a directory or as a file. A link stands for a file
if the path that it is walked by leads to one, and for nothing otherwise. -/
inductive Stands (disk : Disk) (place : List String) (path : Path) : Bool → Prop
  | directory {inner : List (String × FileTree)} :
      disk.tree.at? place = some (.directory inner) → Stands disk place path true
  | file {bytes : List UInt8} :
      disk.tree.at? place = some (.file bytes) → Stands disk place path false
  | link {target : String} : disk.tree.at? place = some (.link target) →
      (disk.lookup path).isFile = true → Stands disk place path false

/-- A walk below a path, which leads to `place`, is to list something: it stands there, every
directory above it can be listed, and none of them, nor itself if it is a directory, is passed
over. -/
structure Listed (disk : Disk) (skip : NameSet) (root : Path) (place : List String)
    (e : WalkEntry) : Prop where
  nonempty : e.path ≠ []
  stands : Stands disk (place ++ e.path) (root.below e.path) e.isDirectory
  open_ : ∀ q, q <+: e.path → q ≠ e.path → disk.lists (root.below q) = true
  above : ∀ q, q <+: e.path → q ≠ e.path → ¬ Pruned skip q
  self : e.isDirectory = true → ¬ Pruned skip e.path

variable {disk : Disk} {skip : NameSet} {root : Path}

theorem not_pruned_nil (skip : NameSet) : ¬ Pruned skip [] := by
  rintro ⟨front, name, hpath, _⟩
  simp at hpath

theorem isPruned_iff {path : List String} (hpath : path ≠ []) :
    isPruned skip path = true ↔ Pruned skip path := by
  obtain rfl | ⟨front, name, rfl⟩ := List.eq_nil_or_concat' path
  · exact absurd rfl hpath
  have hprunes : isPruned skip (front ++ [name]) = true
      ↔ (name ∈ Skip.always ∨ name ∈ skip ∨ Path.joined (front ++ [name]) ∈ skip) := by
    simp [isPruned, Skip.prunes, Skip.isAlways, or_assoc]
  rw [hprunes]
  constructor
  · intro h
    exact ⟨front, name, rfl, h⟩
  · rintro ⟨front', last, heq, h⟩
    obtain ⟨_, hlast⟩ := List.append_inj' heq rfl
    cases hlast
    exact h

/-! ## What stands in a directory -/

theorem stands_of_mem (hdisk : disk.WellFormed) {place : List String}
    {entries : List (String × FileTree)}
    (hat : disk.tree.at? place = some (.directory entries)) {name : String} {t : FileTree}
    (hmem : (name, t) ∈ entries) : disk.tree.at? (place ++ [name]) = some t := by
  rw [FileTree.at?_directory_child hat]
  exact FileTree.find?_eq_some (hdisk.nodup_names hat) hmem

theorem Stands.exists_at? {place : List String} {path : Path} {isDirectory : Bool}
    (h : Stands disk place path isDirectory) : ∃ t, disk.tree.at? place = some t := by
  cases h with
  | directory hat => exact ⟨_, hat⟩
  | file hat => exact ⟨_, hat⟩
  | link hat _ => exact ⟨_, hat⟩

theorem Stands.entryName (hnamed : disk.tree.Named) {place rest : List String} {path : Path}
    {isDirectory : Bool} (h : Stands disk (place ++ rest) path isDirectory) :
    ∀ s ∈ rest, FileTree.EntryName s := by
  intro s hs
  obtain ⟨t, hat⟩ := h.exists_at?
  exact Disk.entryName_of_at? hnamed hat s (List.mem_append_right place hs)

/-- What stands at a place is a directory or not. -/
theorem Stands.unique {place : List String} {path path' : Path} {isDirectory isDirectory' : Bool}
    (h : Stands disk place path isDirectory) (h' : Stands disk place path' isDirectory') :
    isDirectory = isDirectory' := by
  cases h <;> cases h' <;> first | rfl | simp_all

/-! ## Listed and visited -/

/-- From the directory `path` down along `rest`, short of its end, every directory can be listed,
and none is passed over. -/
def ClearDown (disk : Disk) (skip : NameSet) (root : Path) (path rest : List String) : Prop :=
  ∀ r, r <+: rest → r ≠ rest →
    disk.lists (root.below (path ++ r)) = true ∧ ¬ Pruned skip (path ++ r)

theorem clearDown_nil (path : List String) : ClearDown disk skip root path [] := by
  intro r hr hshort
  exact absurd (List.prefix_nil.mp hr) hshort

theorem clearDown_cons_iff {path rest : List String} {name : String} :
    ClearDown disk skip root path (name :: rest)
      ↔ (disk.lists (root.below path) = true ∧ ¬ Pruned skip path)
        ∧ ClearDown disk skip root (path ++ [name]) rest := by
  constructor
  · intro h
    refine ⟨by simpa using h [] (List.nil_prefix) (by simp), fun r hr hshort => ?_⟩
    rw [List.append_assoc]
    exact h (name :: r) (List.cons_prefix_cons.mpr ⟨rfl, hr⟩) (by simpa using hshort)
  · rintro ⟨hfirst, h⟩ r hr hshort
    rcases List.prefix_cons_iff.mp hr with rfl | ⟨tail, rfl, htail⟩
    · rwa [List.append_nil]
    · have hbelow := h tail htail fun heq => hshort (by rw [heq])
      rwa [List.append_assoc] at hbelow

/-- What a walk of a tree is to visit stands where its path says, every directory between the tree
and it can be listed, and none is passed over. -/
theorem listed_of_visits (hdisk : disk.WellFormed) {place path : List String} {t : FileTree}
    {e : WalkEntry} (h : Visits disk root skip path t e) (hpath : path ≠ [])
    (hat : disk.tree.at? (place ++ path) = some t) :
    ∃ rest, e.path = path ++ rest ∧ Stands disk (place ++ e.path) (root.below e.path) e.isDirectory
      ∧ ClearDown disk skip root path rest ∧ (e.isDirectory = true → ¬ Pruned skip e.path) := by
  induction h with
  | file => exact ⟨[], by simp, .file hat, clearDown_nil _, fun h => (by cases h)⟩
  | link hlink => exact ⟨[], by simp, .link hat hlink, clearDown_nil _, fun h => (by cases h)⟩
  | directory hskip =>
    exact ⟨[], by simp, .directory hat, clearDown_nil _,
      fun _ hpruned => hskip ((isPruned_iff hpath).mpr hpruned)⟩
  | @inside path entries name t e hskip hlists hmem _ ih =>
    have hchild : disk.tree.at? (place ++ (path ++ [name])) = some t := by
      rw [← List.append_assoc]
      exact stands_of_mem hdisk hat hmem
    obtain ⟨rest, heq, hstands, hclear, hself⟩ := ih (by simp) hchild
    have hspared : ¬ Pruned skip path := fun hpruned => hskip ((isPruned_iff hpath).mpr hpruned)
    exact ⟨name :: rest, by simpa using heq, hstands,
      clearDown_cons_iff.mpr ⟨⟨hlists, hspared⟩, hclear⟩, hself⟩

/-- What stands below a tree that is being walked, with nothing between them that cannot be listed
or is passed over, is to be visited. -/
theorem visits_of_listed {place path rest : List String} {t : FileTree} {isDirectory : Bool}
    (hpath : path ≠ []) (hat : disk.tree.at? (place ++ path) = some t)
    (hstands : Stands disk (place ++ path ++ rest) (root.below (path ++ rest)) isDirectory)
    (hclear : ClearDown disk skip root path rest)
    (hself : isDirectory = true → ¬ Pruned skip (path ++ rest)) :
    Visits disk root skip path t ⟨path ++ rest, isDirectory⟩ := by
  induction rest generalizing path t with
  | nil =>
    rw [List.append_nil] at hstands hself ⊢
    cases hstands with
    | directory hinner =>
      cases hat.symm.trans hinner
      exact .directory fun h => hself rfl ((isPruned_iff hpath).mp h)
    | file hfile =>
      cases hat.symm.trans hfile
      exact .file
    | link hlink hlookup =>
      cases hat.symm.trans hlink
      rw [List.append_nil] at hlookup
      exact .link hlookup
  | cons name rest ih =>
    obtain ⟨⟨hlists, hfirst⟩, hclear⟩ := clearDown_cons_iff.mp hclear
    have hsplit : path ++ name :: rest = (path ++ [name]) ++ rest := by simp
    have hplace : place ++ path ++ name :: rest = place ++ (path ++ [name]) ++ rest := by simp
    rw [hsplit] at hself ⊢
    rw [hplace, hsplit] at hstands
    -- something stands below, so here is a directory
    obtain ⟨u, hu⟩ := hstands.exists_at?
    rw [FileTree.at?_append] at hu
    obtain ⟨child, hchild, -⟩ := Option.bind_eq_some_iff.mp hu
    have hbelow := hchild
    rw [← List.append_assoc] at hbelow
    obtain ⟨inner, hinner⟩ := Disk.isDirectory_of_at?_below hbelow
    cases hat.symm.trans hinner
    rw [FileTree.at?_directory_child hinner] at hbelow
    exact .inside (fun h => hfirst ((isPruned_iff hpath).mp h)) hlists
      (FileTree.mem_of_find? hbelow) (ih (by simp) hchild hstands hclear hself)

/-- The walk below a path lists what is to be listed below the directory that it leads to. -/
theorem mem_entries_iff_listed (hdisk : disk.WellFormed) {place : List String}
    (hroot : disk.directory? root = some place) (skip : NameSet) (e : WalkEntry) :
    e ∈ entries disk root skip ↔ Listed disk skip root place e := by
  obtain ⟨top, htop⟩ := hdisk.isDirectory_of_lookup (Disk.directory?_eq_some.mp hroot)
  have hstart : root.below [] = root := by simp [Path.below]
  rw [mem_entries_iff]
  constructor
  · rintro ⟨found, inner, hfound, hat, hlists, d, hd, hvisits⟩
    rw [hroot] at hfound
    cases hfound
    obtain ⟨rest, hpath, hstands, hclear, hself⟩ :=
      listed_of_visits hdisk hvisits (by simp) (stands_of_mem hdisk hat hd)
    have hall : ClearDown disk skip root [] e.path := by
      rw [hpath]
      exact clearDown_cons_iff.mpr ⟨⟨by rwa [hstart], not_pruned_nil skip⟩, hclear⟩
    exact ⟨by rw [hpath]; simp, hstands, fun q hq hne => (hall q hq hne).1,
      fun q hq hne => (hall q hq hne).2, hself⟩
  · intro h
    obtain ⟨e, isDirectory⟩ := e
    obtain ⟨name, rest, rfl⟩ := List.exists_cons_of_ne_nil h.nonempty
    have hall : ClearDown disk skip root [] (name :: rest) :=
      fun q hq hne => ⟨h.open_ q hq hne, h.above q hq hne⟩
    obtain ⟨⟨hlists, -⟩, hclear⟩ := clearDown_cons_iff.mp hall
    have hsplit : place ++ name :: rest = place ++ [name] ++ rest := by simp
    have hstands := h.stands
    rw [hsplit] at hstands
    obtain ⟨u, hu⟩ := hstands.exists_at?
    rw [FileTree.at?_append] at hu
    obtain ⟨child, hchild, -⟩ := Option.bind_eq_some_iff.mp hu
    have hmem := FileTree.mem_of_find? ((FileTree.at?_directory_child htop name).symm.trans hchild)
    rw [hstart] at hlists
    exact ⟨place, top, hroot, htop, hlists, (name, child), hmem,
      visits_of_listed (List.cons_ne_nil name []) hchild hstands hclear h.self⟩

/-! ## Directories that are entered -/

/-- A directory that a walk below a path enters, by its path from there: it stands on the disk,
every directory above it can be listed, and neither it nor a directory above it is passed over. -/
structure Entered (disk : Disk) (skip : NameSet) (root : Path) (place path : List String) :
    Prop where
  stands : disk.IsDirectory (place ++ path)
  open_ : ∀ q, q <+: path → q ≠ path → disk.lists (root.below q) = true
  spared : ∀ q, q <+: path → ¬ Pruned skip q

/-- A file in a directory that a walk enters, by its own path. -/
def Seen (disk : Disk) (skip : NameSet) (place : List String) (p : Path) : Prop :=
  ∃ path name, p = ⟨true, place ++ path ++ [name]⟩ ∧ Entered disk skip ⟨true, place⟩ place path

theorem Entered.entryName (hnamed : disk.tree.Named) {place path : List String}
    (h : Entered disk skip root place path) : ∀ s ∈ path, FileTree.EntryName s := by
  intro s hs
  obtain ⟨entries, hat⟩ := h.stands
  exact Disk.entryName_of_at? hnamed hat s (List.mem_append_right place hs)

theorem prefix_ne_concat {path q : List String} {name : String} (hq : q <+: path) :
    q ≠ path ++ [name] := by
  rintro rfl
  have hle := hq.length_le
  rw [List.length_append, List.length_singleton] at hle
  omega

theorem Entered.of_concat {place path : List String} {name : String}
    (h : Entered disk skip root place (path ++ [name])) : Entered disk skip root place path := by
  have hlonger : ∀ {q}, q <+: path → q <+: path ++ [name] := fun hq =>
    hq.trans (List.prefix_append path [name])
  refine ⟨?_, fun q hq _ => h.open_ q (hlonger hq) (prefix_ne_concat hq),
    fun q hq => h.spared q (hlonger hq)⟩
  have hstands := h.stands
  rw [← List.append_assoc] at hstands
  exact hstands.of_append

/-- What is visited below a directory is listed. -/
theorem listed_of_mem_entries (hdisk : disk.WellFormed) {place : List String}
    (hplace : disk.IsDirectory place) {e : WalkEntry}
    (he : e ∈ entries disk ⟨true, place⟩ skip) : Listed disk skip ⟨true, place⟩ place e := by
  obtain ⟨found, _, hfound, _⟩ := mem_entries_iff.mp he
  have hsame := Disk.eq_of_lookup_place hdisk.named hplace (Disk.directory?_eq_some.mp hfound)
  rw [hsame] at hfound
  exact (mem_entries_iff_listed hdisk hfound skip e).mp he

/-- What is visited lies in a directory that is entered. -/
theorem Listed.entered {place : List String} {e : WalkEntry} (h : Listed disk skip root place e) :
    ∃ path name, e.path = path ++ [name] ∧ Entered disk skip root place path
      ∧ disk.lists (root.below path) = true := by
  obtain ⟨e, isDirectory⟩ := e
  obtain rfl | ⟨path, name, rfl⟩ := List.eq_nil_or_concat' e
  · exact absurd rfl h.nonempty
  · have hlonger : ∀ {q}, q <+: path → q <+: path ++ [name] := fun hq =>
      hq.trans (List.prefix_append path [name])
    refine ⟨path, name, rfl, ⟨?_, fun q hq _ => h.open_ q (hlonger hq) (prefix_ne_concat hq),
      fun q hq => h.above q (hlonger hq) (prefix_ne_concat hq)⟩,
      h.open_ path (List.prefix_append _ _) (prefix_ne_concat (List.prefix_refl _))⟩
    obtain ⟨t, hat⟩ := h.stands.exists_at?
    rw [← List.append_assoc] at hat
    exact Disk.isDirectory_of_at?_below hat

/-- The directories that are visited are those that are entered, but for the start. -/
theorem listed_directory_iff {place path : List String} :
    Listed disk skip root place ⟨path, true⟩ ↔ path ≠ [] ∧ Entered disk skip root place path := by
  constructor
  · rintro ⟨hne, hstands, hopen, habove, hself⟩
    cases hstands with
    | directory hat =>
      refine ⟨hne, ⟨_, hat⟩, hopen, fun q hq => ?_⟩
      by_cases hwhole : q = path
      · rw [hwhole]
        exact hself rfl
      · exact habove q hq hwhole
  · rintro ⟨hne, ⟨inner, hat⟩, hopen, hspared⟩
    exact ⟨hne, .directory hat, hopen, fun q hq _ => hspared q hq,
      fun _ => hspared path (List.prefix_refl path)⟩

/-- A file in a directory that is entered and can be listed is visited. -/
theorem Entered.listed_file {place path : List String} (h : Entered disk skip root place path)
    (hlists : disk.lists (root.below path) = true) {name : String}
    (hstands : Stands disk (place ++ (path ++ [name])) (root.below (path ++ [name])) false) :
    Listed disk skip root place ⟨path ++ [name], false⟩ := by
  refine ⟨by simp, hstands, fun q hq hne => ?_, fun q hq hne => ?_, fun h => (by cases h)⟩
  · rcases List.prefix_concat_iff.mp hq with hwhole | hq
    · exact absurd hwhole hne
    · by_cases hend : q = path
      · rwa [hend]
      · exact h.open_ q hq hend
  · rcases List.prefix_concat_iff.mp hq with hwhole | hq
    · exact absurd hwhole hne
    · exact h.spared q hq

/-- A walk enters the directory where it starts. -/
theorem entered_start {place : List String} (hplace : disk.IsDirectory place) :
    Entered disk skip root place [] := by
  refine ⟨by rwa [List.append_nil], fun q hq hne => absurd (List.prefix_nil.mp hq) hne,
    fun q hq => ?_⟩
  rw [List.prefix_nil.mp hq]
  exact not_pruned_nil skip

/-- What is visited lies at the start of the walk or in a directory that is visited too. -/
theorem dropLast_mem_entries (hdisk : disk.WellFormed) {e : WalkEntry}
    (he : e ∈ entries disk root skip) :
    e.path.dropLast = [] ∨ ⟨e.path.dropLast, true⟩ ∈ entries disk root skip := by
  obtain ⟨place, _, hroot, _⟩ := mem_entries_iff.mp he
  have hlisted := mem_entries_iff_listed hdisk hroot skip
  obtain ⟨above, name, hpath, hentered, -⟩ := ((hlisted e).mp he).entered
  rw [hpath, List.dropLast_concat, or_iff_not_imp_left]
  exact fun hne => (hlisted _).mpr (listed_directory_iff.mpr ⟨hne, hentered⟩)

/-! ## The listing -/

/-- The listing of a walk is exact: it holds what stands below the start, unless a directory on the
way cannot be listed or is passed over, once, and in ascending order of paths. A file is listed
whatever its own name is. Where every directory can be listed, only those that are passed over
make a difference. -/
theorem entries_exact (hdisk : disk.WellFormed) {place : List String}
    (hroot : disk.directory? root = some place) (skip : NameSet) :
    (∀ e, e ∈ entries disk root skip ↔ Listed disk skip root place e)
      ∧ (∀ e ∈ entries disk root skip, ((entries disk root skip).map (·.path)).count e.path = 1)
      ∧ ((entries disk root skip).map (·.path)).Pairwise (· < ·)
      ∧ (∀ above name bytes,
        disk.tree.at? (place ++ (above ++ [name])) = some (.file bytes) →
        (∀ q, q <+: above → disk.lists (root.below q) = true ∧ ¬ Pruned skip q) →
        ⟨above ++ [name], false⟩ ∈ entries disk root skip)
      ∧ ((∀ q, disk.IsDirectory (place ++ q) → disk.lists (root.below q) = true) →
        ∀ e, e ∈ entries disk root skip ↔ e.path ≠ []
          ∧ Stands disk (place ++ e.path) (root.below e.path) e.isDirectory
          ∧ (∀ q, q <+: e.path → q ≠ e.path → ¬ Pruned skip q)
          ∧ (e.isDirectory = true → ¬ Pruned skip e.path)) := by
  have hlisted := mem_entries_iff_listed hdisk hroot skip
  refine ⟨hlisted, fun e he => ?_, ascending_entries hdisk.distinct root skip, ?_, ?_⟩
  · exact List.count_eq_one_of_mem (nodup_entries hdisk.distinct root skip)
      (List.mem_map_of_mem he)
  · intro above name bytes hfile hclear
    have habove : ∀ q, q <+: above ++ [name] → q ≠ above ++ [name] → q <+: above := fun q hq hne =>
      (List.prefix_concat_iff.mp hq).resolve_left hne
    exact (hlisted _).mpr ⟨by simp, .file hfile, fun q hq hne => (hclear q (habove q hq hne)).1,
      fun q hq hne => (hclear q (habove q hq hne)).2, fun h => by cases h⟩
  · intro hopen e
    rw [hlisted]
    constructor
    · exact fun h => ⟨h.nonempty, h.stands, h.above, h.self⟩
    rintro ⟨hne, hstands, habove, hself⟩
    refine ⟨hne, hstands, fun q hq hshort => hopen q ?_, habove, hself⟩
    obtain ⟨rest, hrest⟩ := hq
    obtain ⟨t, hat⟩ := hstands.exists_at?
    cases rest with
    | nil => exact absurd (by simpa using hrest) hshort
    | cons name rest =>
      rw [← hrest, ← List.append_assoc] at hat
      exact Disk.isDirectory_of_at?_below hat

/-- A repository with links to a file, to a directory and to nothing, with a file and several
directories of names that are passed over, and with a directory that may not be listed. -/
def linkedDisk : Disk where
  tree := .directory [("r", .directory [
    ("old", .file []), ("vendor", .file []), ("c.ts", .link "a/keep"), ("d", .link "lost"),
    ("a", .directory [("keep", .file []), ("build", .directory [("x.ts", .file [])])]),
    ("b", .link "a"), ("shut", .directory [("y.ts", .file [])]),
    ("docs", .directory [("new.md", .file []), ("old", .directory [("a.md", .file [])])])])]
  rights := fun place => { read := place != ["r", "shut"] }

theorem entries_exact_linked : linkedDisk.WellFormed
    ∧ linkedDisk.directory? ⟨true, ["r"]⟩ = some ["r"]
    ∧ (entries linkedDisk ⟨true, ["r"]⟩ ["docs/old"]).map (·.path)
        = [["a"], ["a", "keep"], ["c.ts"], ["docs"], ["docs", "new.md"], ["old"], ["shut"],
          ["vendor"]]
    ∧ Listed linkedDisk ["docs/old"] ⟨true, ["r"]⟩ ["r"] ⟨["c.ts"], false⟩
    ∧ ¬ Listed linkedDisk ["docs/old"] ⟨true, ["r"]⟩ ["r"] ⟨["docs", "old", "a.md"], false⟩
    ∧ ⟨["vendor"], false⟩ ∈ entries linkedDisk ⟨true, ["r"]⟩ ["docs/old"] := by
  have hdisk : linkedDisk.WellFormed := by decide +kernel
  have hroot : linkedDisk.directory? ⟨true, ["r"]⟩ = some ["r"] := by decide +kernel
  obtain ⟨hlisted, _, _, hfile, _⟩ := entries_exact hdisk hroot ["docs/old"]
  refine ⟨hdisk, hroot, by decide +kernel, (hlisted _).mp (by decide +kernel),
    fun h => absurd ((hlisted _).mpr h) (by decide +kernel), ?_⟩
  refine hfile [] "vendor" [] rfl fun q hq => ?_
  rw [List.prefix_nil.mp hq]
  exact ⟨by decide +kernel, not_pruned_nil _⟩

end Walk

end RepoSurvey
