import Mathlib.Data.List.Sort
import RepoSurvey.Proofs.Disk.Listing

/-!
# Disks that differ only in what is passed over

A walk does not look into directories that are passed over. Two disks that differ only there are
walked alike, and whatever is in a directory that a walk enters can be looked up alike.

* `Disk.node?`: what stands at a place, with the rights to it, without what is in it;
* `Disk.SameDirectory`: a directory to which the way is the same on two disks;
* `Disk.SameWay`, `SameWay.exists_reached`: a path on which nothing differs is gone down alike;
* `Walk.filter_entries_eq`, `Walk.filter_entries_eq_of_listed_iff`: walks that list the same are the
  same;
* `Walk.Concealed`: a path lies strictly inside a directory that is passed over;
* `Walk.Alike`: two disks differ only at such paths;
* `Walk.SeenAlike`: two disks on which a walk sees the same;
* `SeenAlike.lookup_eq`, `SeenAlike.entries_eq`: what is in a directory that is entered is looked
  up alike, and the same is visited.
-/

namespace RepoSurvey

namespace FileTree

/-- What stands somewhere, without what is in it. -/
inductive Node
  | file (bytes : List UInt8)
  | link (target : String)
  | directory
  deriving DecidableEq, Repr

def node : FileTree → Node
  | .file bytes => .file bytes
  | .link target => .link target
  | .directory _ => .directory

end FileTree

namespace Disk

variable {disk disk' : Disk}

open FileTree

/-- What stands at a place, without what is in it, with the rights to it. -/
def node? (disk : Disk) (place : List String) : Option (Node × Rights) :=
  (disk.tree.at? place).map fun t => (t.node, disk.rights place)

theorem node?_eq_some {place : List String} {n : Node} {r : Rights} :
    disk.node? place = some (n, r)
      ↔ (∃ t, disk.tree.at? place = some t ∧ t.node = n) ∧ disk.rights place = r := by
  unfold node?
  cases disk.tree.at? place <;> simp

theorem isDirectory_iff_node? {place : List String} :
    IsDirectory disk place ↔ disk.node? place = some (.directory, disk.rights place) := by
  rw [node?_eq_some, and_iff_left rfl]
  constructor
  · rintro ⟨entries, hat⟩
    exact ⟨_, hat, rfl⟩
  · rintro ⟨t, hat, ht⟩
    cases t with
    | file bytes => cases ht
    | link target => cases ht
    | directory entries => exact ⟨entries, hat⟩

theorem node?_of_at? {place : List String} {t : FileTree} (hat : disk.tree.at? place = some t) :
    disk.node? place = some (t.node, disk.rights place) := by
  rw [node?, hat]
  rfl

/-- Something that is not a directory is told by its node. -/
theorem at?_of_node? {place : List String} {leaf : FileTree} {r : Rights}
    (hleaf : leaf.isDirectory = false) (h : disk.node? place = some (leaf.node, r)) :
    disk.tree.at? place = some leaf ∧ disk.rights place = r := by
  obtain ⟨⟨t, hat, ht⟩, hrights⟩ := node?_eq_some.mp h
  refine ⟨hat.trans (congrArg some ?_), hrights⟩
  cases leaf with
  | file bytes => cases t <;> simp_all [node]
  | link target => cases t <;> simp_all [node]
  | directory entries => cases hleaf

section Nodes

variable {place : List String} (h : disk.node? place = disk'.node? place)

include h

theorem at?_congr {leaf : FileTree} (hleaf : leaf.isDirectory = false)
    (hat : disk.tree.at? place = some leaf) :
    disk'.tree.at? place = some leaf ∧ disk'.rights place = disk.rights place :=
  at?_of_node? hleaf (h ▸ node?_of_at? hat)

theorem isDirectory_congr : IsDirectory disk place ↔ IsDirectory disk' place := by
  have hside : ∀ {d d' : Disk}, d.node? place = d'.node? place →
      IsDirectory d place → IsDirectory d' place := by
    intro d d' hsame hplace
    have hnode := hsame ▸ isDirectory_iff_node?.mp hplace
    have hrights := (node?_eq_some.mp hnode).2
    rw [← hrights] at hnode
    exact isDirectory_iff_node?.mpr hnode
  exact ⟨hside h, hside h.symm⟩

theorem rights_congr (hplace : IsDirectory disk place) : disk.rights place = disk'.rights place :=
  (node?_eq_some.mp (h ▸ isDirectory_iff_node?.mp hplace)).2.symm

theorem at?_eq_none_congr (hat : disk.tree.at? place = none) : disk'.tree.at? place = none := by
  rw [node?, hat, node?, Option.map_none, eq_comm, Option.map_eq_none_iff] at h
  exact h

end Nodes

/-! ## Going down -/

/-- Where the same stands under a name on both disks, and no link, going down to it ends alike. -/
theorem exists_reached {place : List String} {name : String}
    (hrights : disk.rights place = disk'.rights place)
    (hnode : disk.node? (place ++ [name]) = disk'.node? (place ++ [name]))
    (hlink : ∀ target, disk.tree.at? (place ++ [name]) ≠ some (.link target)) :
    ∃ found, descend disk place [name] = .reached found
      ∧ descend disk' place [name] = .reached found := by
  have hsearch' : (disk'.rights place).search = (disk.rights place).search := by rw [hrights]
  rcases descend_cons_cases place name (disk.rights place).search with
    ⟨next, _, _, hstep⟩ | ⟨found, _, hstep⟩ | ⟨hsearch, hdot, hdots, hshort⟩
  · exact ⟨.directory next, hstep disk rfl [], hstep disk' hsearch' []⟩
  · exact ⟨found, hstep disk rfl [], hstep disk' hsearch' []⟩
  rw [descend_cons hsearch hdot hdots hshort,
    descend_cons (hsearch'.trans hsearch) hdot hdots hshort]
  cases hat : disk.tree.at? (place ++ [name]) with
  | none =>
    rw [at?_eq_none_congr hnode hat]
    exact ⟨.absent, rfl, rfl⟩
  | some t =>
    cases t with
    | link target => exact absurd hat (hlink target)
    | file bytes =>
      obtain ⟨hat', hread⟩ := at?_congr hnode rfl hat
      rw [hat']
      exact ⟨.file (disk.contents? (place ++ [name]) bytes), rfl, by simp [contents?, hread]⟩
    | directory entries =>
      obtain ⟨entries', hat'⟩ := (isDirectory_congr hnode).mp ⟨entries, hat⟩
      rw [hat']
      exact ⟨.directory (place ++ [name]), rfl, rfl⟩

/-- Below what is neither a directory nor a link there is nothing. -/
theorem descend_eq_absent {place rest : List String} {name : String}
    (hsearch : (disk.rights place).search = true) (hdot : name ≠ ".")
    (hdots : name ≠ "..") (hshort : name.utf8ByteSize ≤ nameLimit)
    (hdirectory : ¬ IsDirectory disk (place ++ [name]))
    (hlink : ∀ target, disk.tree.at? (place ++ [name]) ≠ some (.link target)) (hrest : rest ≠ []) :
    descend disk place (name :: rest) = .reached .absent := by
  rw [descend_cons hsearch hdot hdots hshort]
  cases hat : disk.tree.at? (place ++ [name]) with
  | none => rfl
  | some t =>
    cases t with
    | file bytes => simp [hrest]
    | link target => exact absurd hat (hlink target)
    | directory entries => exact absurd ⟨entries, hat⟩ hdirectory

theorem descend_cons_directory {place rest : List String} {name : String}
    (hsearch : (disk.rights place).search = true) (hdot : name ≠ ".") (hdots : name ≠ "..")
    (hshort : name.utf8ByteSize ≤ nameLimit) (hdirectory : IsDirectory disk (place ++ [name])) :
    descend disk place (name :: rest) = descend disk (place ++ [name]) rest := by
  obtain ⟨entries, hat⟩ := hdirectory
  rw [descend_cons hsearch hdot hdots hshort, hat]

/-- The way down a path from `place` is the same on two disks: there are no dots and no links on it,
the same of its beginnings are directories, with the same rights, and the same stands at its end. -/
structure SameWay (disk disk' : Disk) (place path : List String) : Prop where
  undotted : ∀ s ∈ path, s ≠ "." ∧ s ≠ ".."
  linkless : ∀ q target, q <+: path → disk.tree.at? (place ++ q) ≠ some (.link target)
  linkless' : ∀ q target, q <+: path → disk'.tree.at? (place ++ q) ≠ some (.link target)
  directories : ∀ q r, q <+: path → (disk.node? (place ++ q) = some (.directory, r)
    ↔ disk'.node? (place ++ q) = some (.directory, r))
  last : disk.node? (place ++ path) = disk'.node? (place ++ path)

theorem isDirectory_iff_exists_node? {place : List String} :
    IsDirectory disk place ↔ ∃ r, disk.node? place = some (.directory, r) := by
  constructor
  · exact fun h => ⟨_, isDirectory_iff_node?.mp h⟩
  · rintro ⟨r, hr⟩
    rw [isDirectory_iff_node?, (node?_eq_some.mp hr).2, hr]

namespace SameWay

variable {place path : List String} {name : String}

theorem isDirectory_iff (h : SameWay disk disk' place path) {q : List String} (hq : q <+: path) :
    IsDirectory disk (place ++ q) ↔ IsDirectory disk' (place ++ q) := by
  simp only [isDirectory_iff_exists_node?, h.directories q _ hq]

theorem rights_eq (h : SameWay disk disk' place path) (hplace : IsDirectory disk place) :
    disk.rights place = disk'.rights place := by
  have hnode := h.directories [] (disk.rights place) List.nil_prefix
  rw [List.append_nil] at hnode
  exact (node?_eq_some.mp (hnode.mp (isDirectory_iff_node?.mp hplace))).2.symm

theorem tail (h : SameWay disk disk' place (name :: path)) :
    SameWay disk disk' (place ++ [name]) path := by
  have hsplit : ∀ q : List String, place ++ [name] ++ q = place ++ name :: q := by simp
  have hbegins : ∀ {q : List String}, q <+: path → name :: q <+: name :: path := fun hq =>
    List.cons_prefix_cons.mpr ⟨rfl, hq⟩
  refine ⟨(List.forall_mem_cons.mp h.undotted).2, fun q target hq => ?_, fun q target hq => ?_,
    fun q r hq => ?_, ?_⟩
  · rw [hsplit]
    exact h.linkless _ target (hbegins hq)
  · rw [hsplit]
    exact h.linkless' _ target (hbegins hq)
  · rw [hsplit]
    exact h.directories _ r (hbegins hq)
  · rw [hsplit]
    exact h.last

/-- Where the way down is the same, it ends alike. -/
theorem exists_reached (hplace : IsDirectory disk place) (h : SameWay disk disk' place path) :
    ∃ found, descend disk place path = .reached found
      ∧ descend disk' place path = .reached found := by
  induction path generalizing place with
  | nil => exact ⟨.directory place, rfl, rfl⟩
  | cons name rest ih =>
    have hrights := h.rights_eq hplace
    by_cases hrest : rest = []
    · subst hrest
      exact Disk.exists_reached hrights h.last fun target =>
        h.linkless [name] target (List.prefix_refl [name])
    have hsearch' : (disk'.rights place).search = (disk.rights place).search := by rw [hrights]
    have hundotted := (List.forall_mem_cons.mp h.undotted).1
    rcases descend_cons_cases place name (disk.rights place).search with
      ⟨_, hname, _, _⟩ | ⟨found, _, hstep⟩ | ⟨hsearch, hdot, hdots, hshort⟩
    · rcases hname with ⟨hdot, _⟩ | ⟨hdots, _⟩
      · exact absurd hdot hundotted.1
      · exact absurd hdots hundotted.2
    · exact ⟨found, hstep disk rfl rest, hstep disk' hsearch' rest⟩
    have hsearch' := hsearch'.trans hsearch
    have hfirst : [name] <+: name :: rest := ⟨rest, rfl⟩
    by_cases hdirectory : IsDirectory disk (place ++ [name])
    · have hdirectory' := (h.isDirectory_iff hfirst).mp hdirectory
      rw [descend_cons_directory hsearch hdot hdots hshort hdirectory,
        descend_cons_directory hsearch' hdot hdots hshort hdirectory']
      exact ih hdirectory h.tail
    · have hdirectory' := (h.isDirectory_iff hfirst).not.mp hdirectory
      have hlink := fun target => h.linkless [name] target hfirst
      have hlink' := fun target => h.linkless' [name] target hfirst
      exact ⟨.absent, descend_eq_absent hsearch hdot hdots hshort hdirectory hlink hrest,
        descend_eq_absent hsearch' hdot hdots hshort hdirectory' hlink' hrest⟩

end SameWay

/-! ## Looking up -/

/-- A path on which going down ends alike is looked up alike. -/
theorem lookup_congr {path : List String} {found : Found}
    (h : descend disk [] path = .reached found) (h' : descend disk' [] path = .reached found) :
    disk.lookup ⟨true, path⟩ = disk'.lookup ⟨true, path⟩ := by
  unfold lookup
  rw [follow_eq, follow_eq, h, h']

/-- A directory of both disks that is gone down to alike, with the same rights. -/
structure SameDirectory (disk disk' : Disk) (place : List String) : Prop where
  left : IsDirectory disk place
  right : IsDirectory disk' place
  way : descend disk [] place = descend disk' [] place
  rights : disk.rights place = disk'.rights place

namespace SameDirectory

variable (hdisk : disk.WellFormed) (hdisk' : disk'.WellFormed) {place path : List String}
  {name : String}

theorem of_reaches (hdisk : disk.WellFormed) (hdisk' : disk'.WellFormed)
    (hplace : disk.Reaches place) (hplace' : disk'.Reaches place)
    (hrights : disk.rights place = disk'.rights place) : SameDirectory disk disk' place :=
  ⟨hplace.isDirectory hdisk, hplace'.isDirectory hdisk',
    (hplace.descend hdisk).trans (hplace'.descend hdisk').symm, hrights⟩

include hdisk hdisk'

/-- What ends alike from the directory ends alike from the root. -/
theorem exists_reached (h : SameDirectory disk disk' place)
    (hends : ∃ found, descend disk place path = .reached found
      ∧ descend disk' place path = .reached found) :
    ∃ found, descend disk [] (place ++ path) = .reached found
      ∧ descend disk' [] (place ++ path) = .reached found := by
  have hway := h.way
  rcases descend_isDirectory hdisk.named [] place h.left with hreached | hdenied
  · rw [hreached, eq_comm] at hway
    obtain ⟨found, hfound, hfound'⟩ := hends
    exact ⟨found, (descend_append hreached path).trans hfound,
      (descend_append hway path).trans hfound'⟩
  · rcases descend_isDirectory hdisk'.named [] place h.right with hreached' | hdenied'
    · have hend := hdenied []
      rw [List.append_nil, hway, hreached'] at hend
      cases hend
    · exact ⟨.denied, hdenied path, hdenied' path⟩

/-- What ends alike from the directory is looked up alike. -/
theorem lookup_eq (h : SameDirectory disk disk' place)
    (hends : ∃ found, descend disk place path = .reached found
      ∧ descend disk' place path = .reached found) :
    disk.lookup ⟨true, place ++ path⟩ = disk'.lookup ⟨true, place ++ path⟩ := by
  obtain ⟨found, hfound, hfound'⟩ := h.exists_reached hdisk hdisk' hends
  exact lookup_congr hfound hfound'

/-- A name in the directory is looked up alike, if the same stands under it, and no link. -/
theorem lookup_child_eq (h : SameDirectory disk disk' place)
    (hnode : disk.node? (place ++ [name]) = disk'.node? (place ++ [name]))
    (hlink : ∀ target, disk.tree.at? (place ++ [name]) ≠ some (.link target)) :
    disk.lookup ⟨true, place ++ [name]⟩ = disk'.lookup ⟨true, place ++ [name]⟩ :=
  h.lookup_eq hdisk hdisk' (Disk.exists_reached h.rights hnode hlink)

theorem lists_eq (h : SameDirectory disk disk' place) :
    disk.lists ⟨true, place⟩ = disk'.lists ⟨true, place⟩ := by
  have hend : ∃ found, Disk.descend disk place [] = .reached found
      ∧ Disk.descend disk' place [] = .reached found := ⟨.directory place, rfl, rfl⟩
  have hlookup := h.lookup_eq hdisk hdisk' hend
  rw [List.append_nil] at hlookup
  have hdirectory : disk.directory? ⟨true, place⟩ = disk'.directory? ⟨true, place⟩ := by
    rw [directory?, directory?, hlookup]
  rw [lists, lists, ← hdirectory]
  cases hfound : disk.directory? ⟨true, place⟩ with
  | none => rfl
  | some found =>
    rw [eq_of_lookup_place hdisk.named h.left (directory?_eq_some.mp hfound)]
    exact congrArg Rights.read h.rights

/-- A directory below, if nothing differs on the way to it. -/
theorem append (h : SameDirectory disk disk' place)
    (hnodes : ∀ q, q <+: path → disk.node? (place ++ q) = disk'.node? (place ++ q))
    (hpath : IsDirectory disk (place ++ path)) : SameDirectory disk disk' (place ++ path) := by
  have hlast := hnodes path (List.prefix_refl path)
  refine ⟨hpath, (isDirectory_congr hlast).mp hpath, ?_, rights_congr hlast hpath⟩
  have hundotted : ∀ s ∈ path, s ≠ "." ∧ s ≠ ".." := by
    obtain ⟨entries, hat⟩ := hpath
    intro s hs
    have hname := entryName_of_at? hdisk.named hat s (List.mem_append_right place hs)
    exact ⟨hname.ne_dot, hname.ne_dots⟩
  have hbefore : ∀ q, q <+: path → IsDirectory disk (place ++ q) := by
    rintro q ⟨rest, rfl⟩
    rw [← List.append_assoc] at hpath
    exact hpath.of_append
  have hlinkless : ∀ {d : Disk} q target, IsDirectory d (place ++ q) →
      d.tree.at? (place ++ q) ≠ some (.link target) := by
    rintro d q target ⟨entries, hat⟩ hlink
    cases hat.symm.trans hlink
  have hway : SameWay disk disk' place path :=
    ⟨hundotted, fun q target hq => hlinkless q target (hbefore q hq),
      fun q target hq => hlinkless q target ((isDirectory_congr (hnodes q hq)).mp (hbefore q hq)),
      fun q r hq => by rw [hnodes q hq], hlast⟩
  obtain ⟨found, hfound, hfound'⟩ := h.exists_reached hdisk hdisk' (hway.exists_reached h.left)
  rw [hfound, hfound']

end SameDirectory

/-! ## What is looked up alike is read alike -/

theorem isFile_congr {p : Path} (h : disk.lookup p = disk'.lookup p) :
    disk.isFile p = disk'.isFile p := by
  rw [isFile, isFile, h]

theorem readStrict?_congr {p : Path} (h : disk.lookup p = disk'.lookup p) :
    disk.readStrict? p = disk'.readStrict? p := by
  rw [readStrict?, readStrict?, bytes?, bytes?, h]

theorem readLenient?_congr {p : Path} (h : disk.lookup p = disk'.lookup p) :
    disk.readLenient? p = disk'.readLenient? p := by
  rw [readLenient?, readLenient?, bytes?, bytes?, h]

theorem firstFile?_congr {directory : Path} {names : List String}
    (h : ∀ name ∈ names, disk.isFile (directory.child name) = disk'.isFile (directory.child name)) :
    disk.firstFile? directory names = disk'.firstFile? directory names := by
  induction names with
  | nil => rfl
  | cons name rest ih =>
    obtain ⟨hname, hrest⟩ := List.forall_mem_cons.mp h
    rw [firstFile?, firstFile?, hname, ih hrest]

end Disk

namespace Walk

open FileTree

/-- A path lies strictly inside a directory below `place` that is passed over. -/
def Concealed (skip : NameSet) (place p : List String) : Prop :=
  ∃ above, Pruned skip above ∧ place ++ above <+: p ∧ p ≠ place ++ above

/-- Two disks differ only strictly inside directories below `place` that are passed over. -/
structure Alike (skip : NameSet) (place : List String) (disk disk' : Disk) : Prop where
  node?_eq : ∀ p, ¬ Concealed skip place p → disk.node? p = disk'.node? p
  stack_eq : disk.stack = disk'.stack

/-- There are no links below `place`, except where a walk does not look, nor right beside it, where
an import of `place` itself is probed for. -/
structure Linkless (skip : NameSet) (place : List String) (disk : Disk) : Prop where
  below : ∀ path target, disk.tree.at? (place ++ path) = some (.link target) →
    Concealed skip place (place ++ path)
  beside : ∀ name target, disk.tree.at? (place.dropLast ++ [name]) ≠ some (.link target)

variable {skip : NameSet} {place : List String} {disk disk' : Disk}

theorem concealed_append_iff {path : List String} : Concealed skip place (place ++ path)
    ↔ ∃ q, Pruned skip q ∧ q <+: path ∧ path ≠ q := by
  unfold Concealed
  simp only [List.prefix_append_right_inj, ne_eq, List.append_cancel_left_eq]

theorem Alike.symm (h : Alike skip place disk disk') : Alike skip place disk' disk :=
  ⟨fun p hp => (h.node?_eq p hp).symm, h.stack_eq.symm⟩

theorem not_concealed_of_spared {path : List String} (h : ∀ q, q <+: path → ¬ Pruned skip q) :
    ¬ Concealed skip place (place ++ path) := by
  rw [concealed_append_iff]
  rintro ⟨q, hpruned, hq, _⟩
  exact h q hq hpruned

/-- What is in a directory that is entered is not concealed. -/
theorem not_concealed_child {path : List String} (h : ∀ q, q <+: path → ¬ Pruned skip q)
    (name : String) : ¬ Concealed skip place (place ++ path ++ [name]) := by
  rw [List.append_assoc, concealed_append_iff]
  rintro ⟨q, hpruned, hq, hne⟩
  rcases List.prefix_concat_iff.mp hq with heq | hq
  · exact hne heq.symm
  · exact h q hq hpruned

/-- Neither the start of a walk is concealed nor what is beside it or above it. -/
theorem not_concealed_of_length {p : List String} (h : p.length ≤ place.length) :
    ¬ Concealed skip place p := by
  rintro ⟨above, hpruned, habove, hne⟩
  have hlength := habove.length_le
  rw [List.length_append] at hlength
  have hnil : above = [] := List.length_eq_zero_iff.mp (by omega)
  rw [hnil] at hpruned
  exact not_pruned_nil skip hpruned

/-- What is beside the start of a walk is not concealed. -/
theorem not_concealed_beside (name : String) :
    ¬ Concealed skip place (place.dropLast ++ [name]) := by
  by_cases hplace : place = []
  · have hstart : ∀ q, q <+: [] → ¬ Pruned skip q := fun q hq =>
      List.prefix_nil.mp hq ▸ not_pruned_nil skip
    rw [hplace, List.dropLast_nil, ← List.nil_append [name]]
    exact not_concealed_child hstart name
  · refine not_concealed_of_length ?_
    have hpositive := List.length_pos_iff.mpr hplace
    rw [List.length_append, List.length_dropLast, List.length_singleton]
    omega

theorem Linkless.of_alike (h : Linkless skip place disk) (halike : Alike skip place disk disk') :
    Linkless skip place disk' := by
  refine ⟨fun path target hat => ?_, fun name target hat => ?_⟩
  · by_cases hconcealed : Concealed skip place (place ++ path)
    · exact hconcealed
    · exact h.below path target
        (Disk.at?_congr (halike.node?_eq _ hconcealed).symm rfl hat).1
  · have hnode := halike.node?_eq _ (not_concealed_beside name)
    exact h.beside name target (Disk.at?_congr hnode.symm rfl hat).1

/-! ## The walk -/

/-- What is visited in ascending order is told by what is visited. -/
theorem eq_of_ascending {es fs : List WalkEntry} (hes : es.Pairwise fun a b => a.path < b.path)
    (hfs : fs.Pairwise fun a b => a.path < b.path) (h : ∀ e, e ∈ es ↔ e ∈ fs) : es = fs := by
  have : Std.Irrefl (fun a b : WalkEntry => a.path < b.path) := ⟨fun a => List.lt_irrefl a.path⟩
  have : Std.Antisymm (fun a b : WalkEntry => a.path < b.path) :=
    ⟨fun a b hab hba => absurd (List.lt_trans hab hba) (List.lt_irrefl a.path)⟩
  exact hes.eq_of_mem_iff hfs h

/-- Two walks that list the same, each of some kind, are the same in what is of these kinds. -/
theorem filter_entries_eq (hdisk : disk.WellFormed) (hdisk' : disk'.WellFormed)
    {root root' : Path} {place' : List String} (hroot : disk.directory? root = some place)
    (hroot' : disk'.directory? root' = some place') {skip' : NameSet}
    (kind kind' : WalkEntry → Bool)
    (h : ∀ e, Listed disk skip root place e ∧ kind e = true
      ↔ Listed disk' skip' root' place' e ∧ kind' e = true) :
    (entries disk root skip).filter kind = (entries disk' root' skip').filter kind' := by
  have hascending := List.pairwise_map.mp (ascending_entries hdisk.distinct root skip)
  have hascending' := List.pairwise_map.mp (ascending_entries hdisk'.distinct root' skip')
  refine eq_of_ascending (hascending.filter _) (hascending'.filter _) fun e => ?_
  rw [List.mem_filter, List.mem_filter, mem_entries_iff_listed hdisk hroot,
    mem_entries_iff_listed hdisk' hroot']
  exact h e

/-- Walks that list the same of some kind are the same in what is of this kind. -/
theorem filter_entries_eq_of_listed_iff (hdisk : disk.WellFormed) (hdisk' : disk'.WellFormed)
    {root : Path} (hroot : disk.directory? root = some place)
    (hroot' : disk'.directory? root = some place) {skip' : NameSet} (kind : WalkEntry → Bool)
    (h : ∀ e, kind e = true → (Listed disk skip root place e ↔ Listed disk' skip' root place e)) :
    (entries disk root skip).filter kind = (entries disk' root skip').filter kind :=
  filter_entries_eq hdisk hdisk' hroot hroot' kind kind fun e => and_congr_left (h e)

/-- Walks that list the same are the same. -/
theorem entries_eq_of_listed_iff (hdisk : disk.WellFormed) (hdisk' : disk'.WellFormed)
    {root : Path} (hroot : disk.directory? root = some place)
    (hroot' : disk'.directory? root = some place) {skip' : NameSet}
    (h : ∀ e, Listed disk skip root place e ↔ Listed disk' skip' root place e) :
    entries disk root skip = entries disk' root skip' := by
  have hall := filter_entries_eq_of_listed_iff hdisk hdisk' hroot hroot' (fun _ => true)
    fun e _ => h e
  rwa [List.filter_true, List.filter_true] at hall

/-- Sets that pass over the same, as far as it can be a path, are walked with alike. -/
theorem entries_congr (hdisk : disk.WellFormed) {skip' : NameSet}
    (h : ∀ q, (∀ s ∈ q, FileTree.EntryName s) → (Pruned skip q ↔ Pruned skip' q)) (root : Path) :
    entries disk root skip = entries disk root skip' := by
  cases hroot : disk.directory? root with
  | none =>
    rw [entries, entries, hroot]
    rfl
  | some place =>
    have hpruned : ∀ {e : WalkEntry},
        Stands disk (place ++ e.path) (root.below e.path) e.isDirectory →
        ∀ q, q <+: e.path → (¬ Pruned skip q ↔ ¬ Pruned skip' q) := fun hstands q hq =>
      (h q fun s hs => hstands.entryName hdisk.named s (hq.subset hs)).not
    refine entries_eq_of_listed_iff hdisk hdisk hroot hroot fun e => ⟨fun he => ?_, fun he => ?_⟩
    · exact ⟨he.nonempty, he.stands, he.open_,
        fun q hq hne => (hpruned he.stands q hq).mp (he.above q hq hne),
        fun hd => (hpruned he.stands _ (List.prefix_refl _)).mp (he.self hd)⟩
    · exact ⟨he.nonempty, he.stands, he.open_,
        fun q hq hne => (hpruned he.stands q hq).mpr (he.above q hq hne),
        fun hd => (hpruned he.stands _ (List.prefix_refl _)).mpr (he.self hd)⟩

/-- Sets with the same members pass over the same. -/
theorem entries_eq_of_mem_iff (hdisk : disk.WellFormed) {skip' : NameSet}
    (h : ∀ name, name ∈ skip ↔ name ∈ skip') (root : Path) :
    entries disk root skip = entries disk root skip' := by
  refine entries_congr hdisk (fun path _ => ?_) root
  simp only [Pruned, h]

/-! ## Two disks that a walk cannot tell apart -/

/-- Two disks with a directory at `place`, below which a walk sees the same. -/
structure SeenAlike (skip : NameSet) (place : List String) (disk disk' : Disk) : Prop where
  left : disk.WellFormed
  right : disk'.WellFormed
  reaches : disk.Reaches place
  reaches' : disk'.Reaches place
  alike : Alike skip place disk disk'
  linkless : Linkless skip place disk

namespace SeenAlike

theorem symm (h : SeenAlike skip place disk disk') : SeenAlike skip place disk' disk :=
  ⟨h.right, h.left, h.reaches', h.reaches, h.alike.symm, h.linkless.of_alike h.alike⟩

theorem directory (h : SeenAlike skip place disk disk') : disk.IsDirectory place :=
  h.reaches.isDirectory h.left

/-- A directory that no directory above is passed over, nor itself, is the same on both disks. -/
theorem sameDirectory (h : SeenAlike skip place disk disk') {path : List String}
    (hpath : disk.IsDirectory (place ++ path)) (hspared : ∀ q, q <+: path → ¬ Pruned skip q) :
    Disk.SameDirectory disk disk' (place ++ path) := by
  have hstart : Disk.SameDirectory disk disk' place :=
    .of_reaches h.left h.right h.reaches h.reaches'
      (Disk.rights_congr (h.alike.node?_eq place (not_concealed_of_length (Nat.le_refl _)))
        h.directory)
  refine hstart.append h.left h.right (fun q hq => h.alike.node?_eq _ ?_) hpath
  exact not_concealed_of_spared fun r hr => hspared r (hr.trans hq)

theorem lists_eq (h : SeenAlike skip place disk disk') {path : List String}
    (hpath : disk.IsDirectory (place ++ path)) (hspared : ∀ q, q <+: path → ¬ Pruned skip q) :
    disk.lists ⟨true, place ++ path⟩ = disk'.lists ⟨true, place ++ path⟩ :=
  (h.sameDirectory hpath hspared).lists_eq h.left h.right

/-- What is in a directory that is entered is looked up alike. -/
theorem lookup_eq (h : SeenAlike skip place disk disk') {path : List String}
    (hpath : Entered disk skip ⟨true, place⟩ place path) (name : String) :
    disk.lookup ⟨true, place ++ path ++ [name]⟩ = disk'.lookup ⟨true, place ++ path ++ [name]⟩ := by
  have hseen : ¬ Concealed skip place (place ++ path ++ [name]) :=
    not_concealed_child hpath.spared name
  refine (h.sameDirectory hpath.stands hpath.spared).lookup_child_eq h.left h.right
    (h.alike.node?_eq _ hseen) fun target hat => ?_
  rw [List.append_assoc] at hat hseen
  exact hseen (h.linkless.below _ target hat)

/-- In a directory that is entered everything is looked up alike. -/
theorem lookup_child_eq (h : SeenAlike skip place disk disk') {path : List String}
    (hpath : Entered disk skip ⟨true, place⟩ place path) (name : String) :
    disk.lookup (Path.child ⟨true, place ++ path⟩ name)
      = disk'.lookup (Path.child ⟨true, place ++ path⟩ name) :=
  h.lookup_eq hpath name

/-- What is beside the start of a walk is looked up alike. -/
theorem lookup_eq_beside (h : SeenAlike skip place disk disk') (name : String) :
    disk.lookup ⟨true, place.dropLast ++ [name]⟩
      = disk'.lookup ⟨true, place.dropLast ++ [name]⟩ := by
  have hnodes : ∀ q, q <+: place.dropLast → disk.node? q = disk'.node? q := fun q hq =>
    h.alike.node?_eq q (not_concealed_of_length
      (hq.length_le.trans (List.dropLast_prefix place).length_le))
  have hroot : Disk.SameDirectory disk disk' [] :=
    ⟨h.left.isDirectory_root, h.right.isDirectory_root, rfl,
      Disk.rights_congr (hnodes [] List.nil_prefix) h.left.isDirectory_root⟩
  have habove := hroot.append h.left h.right hnodes h.directory.dropLast
  exact habove.lookup_child_eq h.left h.right (h.alike.node?_eq _ (not_concealed_beside name))
    (h.linkless.beside name)

end SeenAlike

theorem Entered.of_alike {path : List String} (h : Entered disk skip ⟨true, place⟩ place path)
    (halike : SeenAlike skip place disk disk') : Entered disk' skip ⟨true, place⟩ place path := by
  refine ⟨(halike.sameDirectory h.stands h.spared).right, fun q hq hne => ?_, h.spared⟩
  obtain ⟨rest, rfl⟩ := hq
  have hstands := h.stands
  rw [← List.append_assoc] at hstands
  refine (halike.lists_eq hstands.of_append fun r hr => h.spared r ?_).symm.trans
    (h.open_ q (List.prefix_append q rest) hne)
  exact hr.trans (List.prefix_append q rest)

theorem Listed.of_alike (halike : SeenAlike skip place disk disk') {e : WalkEntry}
    (h : Listed disk skip ⟨true, place⟩ place e) : Listed disk' skip ⟨true, place⟩ place e := by
  obtain ⟨path, name, hpath, hentered, hlists⟩ := h.entered
  have hseen : ¬ Concealed skip place (place ++ e.path) := by
    rw [hpath, ← List.append_assoc]
    exact not_concealed_child hentered.spared name
  have hnode := halike.alike.node?_eq _ hseen
  have hentered' := hentered.of_alike halike
  refine ⟨h.nonempty, ?_, fun q hq hne => ?_, h.above, h.self⟩
  · have hstands := h.stands
    generalize e.isDirectory = isDirectory at hstands ⊢
    cases hstands with
    | @directory inner hat =>
      obtain ⟨inner', hat'⟩ := (Disk.isDirectory_congr hnode).mp ⟨inner, hat⟩
      exact .directory hat'
    | @file bytes hat => exact .file (Disk.at?_congr hnode rfl hat).1
    | @link target hat _ => exact absurd (halike.linkless.below _ target hat) hseen
  · rw [hpath] at hq hne
    rcases List.prefix_concat_iff.mp hq with hwhole | hq
    · exact absurd hwhole hne
    by_cases hend : q = path
    · rw [hend]
      exact (halike.lists_eq hentered.stands hentered.spared).symm.trans hlists
    · exact hentered'.open_ q hq hend

theorem SeenAlike.entries_eq (h : SeenAlike skip place disk disk') :
    entries disk ⟨true, place⟩ skip = entries disk' ⟨true, place⟩ skip :=
  entries_eq_of_listed_iff h.left h.right (Disk.directory?_eq_some.mpr h.reaches)
    (Disk.directory?_eq_some.mpr h.reaches') fun _ => ⟨.of_alike h, .of_alike h.symm⟩

theorem Seen.lookup_eq (h : SeenAlike skip place disk disk') {p : Path}
    (hp : Seen disk skip place p) : disk.lookup p = disk'.lookup p := by
  obtain ⟨path, name, rfl, hpath⟩ := hp
  exact h.lookup_eq hpath name

theorem Seen.of_alike (h : SeenAlike skip place disk disk') {p : Path}
    (hp : Seen disk skip place p) : Seen disk' skip place p := by
  obtain ⟨path, name, rfl, hpath⟩ := hp
  exact ⟨path, name, rfl, hpath.of_alike h⟩

end Walk

end RepoSurvey
