import RepoSurvey.Proofs.Disk.Agreement
import RepoSurvey.Proofs.Disk.Resolve

/-!
# Disks that differ in the bytes of files

Two disks correspond if they differ in nothing but the bytes of files, which are related. Paths are
looked up alike on them and walks are the same; only what files hold may differ.

* `FileTree.SameKind`: the same stands at two places, but for the bytes of a file;
* `Disk.Corresponds`: the same stands everywhere on two disks, but for the bytes of files;
* `Corresponds.lookup`, `Corresponds.resolve_eq`: looking up paths;
* `Corresponds.entries_eq`: walks;
* `FileTree.every`, `FileTree.mapFiles`: a test of everything in a tree, by which there are no links
  in it, and all files of a tree rewritten;
* `Disk.corresponds_mapFiles`, `WellFormed.mapFiles`: a disk corresponds to the one with its files
  rewritten, and names stay as they are.
-/

namespace RepoSurvey

namespace FileTree

/-- The same stands at two places, but for the bytes of a file, which are related. What is in a
directory does not matter. -/
inductive SameKind (R : List UInt8 → List UInt8 → Prop) : FileTree → FileTree → Prop
  | file {bytes bytes' : List UInt8} : R bytes bytes' → SameKind R (.file bytes) (.file bytes')
  | link (target : String) : SameKind R (.link target) (.link target)
  | directory (entries entries' : List (String × FileTree)) :
      SameKind R (.directory entries) (.directory entries')

/-! ## Everything in a tree -/

mutual

/-- Does everything in a tree, with the name that it has, satisfy `p`? The tree itself is given a
name. -/
def every (p : String → FileTree → Bool) (name : String) : FileTree → Bool
  | .file bytes => p name (.file bytes)
  | .link target => p name (.link target)
  | .directory entries => p name (.directory entries) && everyInside p entries

def everyInside (p : String → FileTree → Bool) : List (String × FileTree) → Bool
  | [] => true
  | (name, t) :: rest => every p name t && everyInside p rest

/-- The tree with all its files rewritten, each by the name that it has. -/
def mapFiles (f : String → List UInt8 → List UInt8) (name : String) : FileTree → FileTree
  | .file bytes => .file (f name bytes)
  | .link target => .link target
  | .directory entries => .directory (mapInside f entries)

def mapInside (f : String → List UInt8 → List UInt8) :
    List (String × FileTree) → List (String × FileTree)
  | [] => []
  | (name, t) :: rest => (name, mapFiles f name t) :: mapInside f rest

end

section Every

variable {p : String → FileTree → Bool}

theorem apply_of_every {name : String} {t : FileTree} (h : every p name t = true) :
    p name t = true := by
  cases t with
  | file bytes => exact h
  | link target => exact h
  | directory entries => exact (Bool.and_eq_true_iff.mp h).1

theorem every_of_find? {entries : List (String × FileTree)} (h : everyInside p entries = true)
    {name : String} {t : FileTree} (ht : find? name entries = some t) : every p name t = true := by
  induction entries with
  | nil => cases ht
  | cons e rest ih =>
    obtain ⟨hfirst, hrest⟩ := Bool.and_eq_true_iff.mp h
    rw [find?] at ht
    split at ht
    · rename_i hname
      cases ht
      rwa [hname] at hfirst
    · exact ih hrest ht

theorem every_at? {t u : FileTree} {name : String} (h : every p name t = true)
    {path : List String} (hu : t.at? path = some u) : every p (path.getLastD name) u = true := by
  induction path generalizing t name with
  | nil =>
    cases hu
    exact h
  | cons next path ih =>
    rw [at?] at hu
    obtain ⟨v, hv, hu⟩ := Option.bind_eq_some_iff.mp hu
    rw [List.getLastD_cons]
    refine ih ?_ hu
    cases t with
    | file bytes => cases hv
    | link target => cases hv
    | directory entries => exact every_of_find? (Bool.and_eq_true_iff.mp h).2 hv

end Every

/-- Are there no links in a tree? -/
def linkless (t : FileTree) : Bool :=
  t.every (fun _ u => match u with
    | .link _ => false
    | _ => true) ""

theorem at?_ne_link {t : FileTree} (h : t.linkless = true) (path : List String) (target : String) :
    t.at? path ≠ some (.link target) := by
  intro hat
  have hlink := apply_of_every (every_at? h hat)
  cases hlink

theorem find?_mapInside (f : String → List UInt8 → List UInt8) (name : String)
    (entries : List (String × FileTree)) :
    find? name (mapInside f entries) = (find? name entries).map (mapFiles f name) := by
  induction entries with
  | nil => rfl
  | cons e rest ih =>
    rw [mapInside, find?, find?, ih]
    split
    · rename_i hname
      rw [hname]
      rfl
    · rfl

theorem entries_mapFiles (f : String → List UInt8 → List UInt8) (name : String) (t : FileTree) :
    (t.mapFiles f name).entries = mapInside f t.entries := by
  cases t <;> rfl

theorem at?_mapFiles (f : String → List UInt8 → List UInt8) (name : String) (t : FileTree)
    (path : List String) :
    (t.mapFiles f name).at? path = (t.at? path).map (mapFiles f (path.getLastD name)) := by
  induction path generalizing t name with
  | nil => rfl
  | cons next path ih =>
    rw [at?, at?, entries_mapFiles, find?_mapInside, List.getLastD_cons]
    cases find? next t.entries with
    | none => rfl
    | some u => exact ih next u

theorem map_fst_mapInside (f : String → List UInt8 → List UInt8)
    (entries : List (String × FileTree)) :
    (mapInside f entries).map (·.1) = entries.map (·.1) := by
  induction entries with
  | nil => rfl
  | cons e rest ih => rw [mapInside, List.map_cons, List.map_cons, ih]

/-- Names stay as they are. -/
theorem everyDirectory_mapFiles (p : List String → Bool) (f : String → List UInt8 → List UInt8)
    (name : String) (t : FileTree) :
    everyDirectory p (t.mapFiles f name) = everyDirectory p t := by
  induction t using FileTree.induction generalizing name with
  | file bytes => rfl
  | link target => rfl
  | directory entries ih =>
    have hinside : insideEvery p (mapInside f entries) = insideEvery p entries := by
      induction entries with
      | nil => rfl
      | cons e rest ihrest =>
        obtain ⟨hfirst, hrest⟩ := List.forall_mem_cons.mp ih
        rw [mapInside, insideEvery, insideEvery, hfirst, ihrest hrest]
    rw [mapFiles, everyDirectory, everyDirectory, map_fst_mapInside, hinside]

end FileTree

namespace Disk

open FileTree

/-- Two disks differ in nothing but the bytes of files, which are related. -/
structure Corresponds (R : List UInt8 → List UInt8 → Prop) (disk disk' : Disk) : Prop where
  at? : ∀ place, Option.Rel (SameKind R) (disk.tree.at? place) (disk'.tree.at? place)
  rights : ∀ place, disk.rights place = disk'.rights place
  stack : disk.stack = disk'.stack

/-- The same is found, but for the bytes of a file. -/
inductive Found.SameKind (R : List UInt8 → List UInt8 → Prop) : Found → Found → Prop
  | file {bytes bytes' : Option (List UInt8)} : Option.Rel R bytes bytes' →
      SameKind R (.file bytes) (.file bytes')
  | directory (place : List String) : SameKind R (.directory place) (.directory place)
  | absent : SameKind R .absent .absent
  | nameTooLong : SameKind R .nameTooLong .nameTooLong
  | denied : SameKind R .denied .denied
  | tooManyLinks : SameKind R .tooManyLinks .tooManyLinks

/-- Going down ends alike, but for the bytes of a file. -/
inductive Descent.SameKind (R : List UInt8 → List UInt8 → Prop) : Descent → Descent → Prop
  | reached {found found' : Found} : found.SameKind R found' →
      SameKind R (.reached found) (.reached found')
  | link (place : List String) (target : String) (rest : List String) :
      SameKind R (.link place target rest) (.link place target rest)

variable {R : List UInt8 → List UInt8 → Prop} {disk disk' : Disk}

theorem Found.SameKind.isFile_eq {found found' : Found} (h : found.SameKind R found') :
    found.isFile = found'.isFile ∧ found.error? = found'.error? := by
  cases h <;> exact ⟨rfl, rfl⟩

/-- The files of a disk satisfy a test of their names and bytes. -/
def everyFile (p : String → List UInt8 → Bool) (disk : Disk) : Bool :=
  disk.tree.every (fun name t => match t with
    | .file bytes => p name bytes
    | _ => true) ""

theorem apply_of_everyFile {p : String → List UInt8 → Bool} (h : everyFile p disk = true)
    {path : List String} {bytes : List UInt8} (hat : disk.tree.at? path = some (.file bytes)) :
    p (path.getLastD "") bytes = true :=
  apply_of_every (every_at? h hat)

/-- The disk with all its files rewritten, each by the name that it has. -/
def mapFiles (f : String → List UInt8 → List UInt8) (disk : Disk) : Disk :=
  { disk with tree := disk.tree.mapFiles f "" }

/-- A disk corresponds to the one with its files rewritten, if every file is related to what it
becomes. -/
theorem corresponds_mapFiles {f : String → List UInt8 → List UInt8}
    (h : ∀ path bytes, disk.tree.at? path = some (.file bytes) →
      R bytes (f (path.getLastD "") bytes)) :
    Corresponds R disk (disk.mapFiles f) := by
  refine ⟨fun path => ?_, fun _ => rfl, rfl⟩
  rw [mapFiles, at?_mapFiles]
  cases hat : disk.tree.at? path with
  | none => exact .none
  | some t =>
    cases t with
    | file bytes => exact .some (.file (h path bytes hat))
    | link target => exact .some (.link target)
    | directory entries => exact .some (.directory entries (mapInside f entries))

theorem WellFormed.mapFiles (h : disk.WellFormed) (f : String → List UInt8 → List UInt8) :
    WellFormed (disk.mapFiles f) where
  root := by
    have hroot := h.root
    rw [Disk.mapFiles]
    cases htree : disk.tree with
    | file bytes => rw [htree] at hroot; cases hroot
    | link target => rw [htree] at hroot; cases hroot
    | directory entries => rfl
  named := by
    rw [named_iff, Disk.mapFiles, everyDirectory_mapFiles]
    exact named_iff.mp h.named
  distinct := by
    rw [distinct_iff, Disk.mapFiles, everyDirectory_mapFiles]
    exact distinct_iff.mp h.distinct

namespace Corresponds

theorem symm (h : Corresponds R disk disk') : Corresponds (flip R) disk' disk := by
  refine ⟨fun path => ?_, fun place => (h.rights place).symm, h.stack.symm⟩
  have hkind := h.at? path
  generalize disk.tree.at? path = t at hkind ⊢
  generalize disk'.tree.at? path = t' at hkind ⊢
  cases hkind with
  | none => exact .none
  | some hkind =>
    cases hkind with
    | file hbytes => exact .some (.file hbytes)
    | link target => exact .some (.link target)
    | directory entries entries' => exact .some (.directory entries' entries)

variable {place : List String}

theorem isDirectory (h : Corresponds R disk disk') (hplace : IsDirectory disk place) :
    IsDirectory disk' place := by
  obtain ⟨entries, hat⟩ := hplace
  have hkind := h.at? place
  rw [hat] at hkind
  generalize hat' : disk'.tree.at? place = found at hkind
  cases hkind with
  | some hkind =>
    cases hkind with
    | directory _ entries' => exact ⟨entries', hat'⟩

theorem node?_directory (h : Corresponds R disk disk') {rights : Rights}
    (hnode : disk.node? place = some (.directory, rights)) :
    disk'.node? place = some (.directory, rights) := by
  have hplace := h.isDirectory (isDirectory_iff_exists_node?.mpr ⟨rights, hnode⟩)
  rw [isDirectory_iff_node?.mp hplace, ← h.rights, (node?_eq_some.mp hnode).2]

theorem exists_file (h : Corresponds R disk disk') {bytes : List UInt8}
    (hat : disk.tree.at? place = some (.file bytes)) :
    ∃ bytes', disk'.tree.at? place = some (.file bytes') ∧ R bytes bytes' := by
  have hkind := h.at? place
  rw [hat] at hkind
  generalize hat' : disk'.tree.at? place = found at hkind
  cases hkind with
  | some hkind =>
    cases hkind with
    | file hbytes => exact ⟨_, rfl, hbytes⟩

theorem at?_link (h : Corresponds R disk disk') {target : String}
    (hat : disk.tree.at? place = some (.link target)) :
    disk'.tree.at? place = some (.link target) := by
  have hkind := h.at? place
  rw [hat] at hkind
  generalize hat' : disk'.tree.at? place = found at hkind
  cases hkind with
  | some hkind =>
    cases hkind with
    | link target => rfl

/-! ## Looking up -/

theorem contents? (h : Corresponds R disk disk') (place : List String)
    {bytes bytes' : List UInt8} (hbytes : R bytes bytes') :
    Option.Rel R (disk.contents? place bytes) (disk'.contents? place bytes') := by
  rw [Disk.contents?, Disk.contents?, h.rights]
  split
  · exact .some hbytes
  · exact .none

theorem descend (h : Corresponds R disk disk') (place path : List String) :
    (Disk.descend disk place path).SameKind R (Disk.descend disk' place path) := by
  induction path generalizing place with
  | nil => exact .reached (.directory place)
  | cons name rest ih =>
    rw [Disk.descend, Disk.descend, h.rights]
    by_cases hsearch : (!(disk'.rights place).search) = true
    · rw [if_pos hsearch, if_pos hsearch]
      exact .reached .denied
    rw [if_neg hsearch, if_neg hsearch]
    by_cases hdot : name = "."
    · rw [if_pos hdot, if_pos hdot]
      exact ih place
    rw [if_neg hdot, if_neg hdot]
    by_cases hdots : name = ".."
    · rw [if_pos hdots, if_pos hdots]
      exact ih place.dropLast
    rw [if_neg hdots, if_neg hdots]
    by_cases hlong : name.utf8ByteSize > nameLimit
    · rw [if_pos hlong, if_pos hlong]
      exact .reached .nameTooLong
    rw [if_neg hlong, if_neg hlong]
    have hkind := h.at? (place ++ [name])
    generalize disk.tree.at? (place ++ [name]) = t at hkind ⊢
    generalize disk'.tree.at? (place ++ [name]) = t' at hkind ⊢
    cases hkind with
    | none => exact .reached .absent
    | some hkind =>
      cases hkind with
      | link target => exact .link place target rest
      | directory entries entries' => exact ih (place ++ [name])
      | file hbytes =>
        dsimp only
        split
        · exact .reached (.file (h.contents? _ hbytes))
        · exact .reached .absent

theorem follow (h : Corresponds R disk disk') (links : Nat) (place path : List String) :
    (Disk.follow disk links place path).SameKind R (Disk.follow disk' links place path) := by
  induction links generalizing place path with
  | zero =>
    have hdescent := h.descend place path
    rw [follow_eq, follow_eq]
    generalize Disk.descend disk place path = d at hdescent ⊢
    generalize Disk.descend disk' place path = d' at hdescent ⊢
    cases hdescent with
    | reached hfound => exact hfound
    | link place target rest => exact .tooManyLinks
  | succ links ih =>
    have hdescent := h.descend place path
    rw [follow_eq, follow_eq]
    generalize Disk.descend disk place path = d at hdescent ⊢
    generalize Disk.descend disk' place path = d' at hdescent ⊢
    cases hdescent with
    | reached hfound => exact hfound
    | link place target rest => exact ih _ _

theorem lookup (h : Corresponds R disk disk') (path : Path) :
    (disk.lookup path).SameKind R (disk'.lookup path) := by
  unfold Disk.lookup
  split
  · exact .absent
  · split
    · exact .nameTooLong
    · exact h.follow linkLimit [] path.segments

theorem linkAt?_eq (h : Corresponds R disk disk') : disk.linkAt? = disk'.linkAt? := by
  funext place
  have hdescent := h.descend [] place
  rw [linkAt?, linkAt?]
  generalize Disk.descend disk [] place = d at hdescent ⊢
  generalize Disk.descend disk' [] place = d' at hdescent ⊢
  cases hdescent <;> rfl

theorem resolve_eq (h : Corresponds R disk disk') (path : Path) :
    disk.resolve path = disk'.resolve path :=
  resolve_congr h.linkAt?_eq h.stack path

/-- Paths are resolved alike, and the same is found there. -/
theorem destination_cases (h : Corresponds R disk disk') (path : Path) :
    (∃ e, disk.destination path = .error e ∧ disk'.destination path = .error e)
      ∨ ∃ found found', disk.destination path = .ok found ∧ disk'.destination path = .ok found'
        ∧ found.SameKind R found' := by
  rw [destination, destination, ← h.resolve_eq]
  cases disk.resolve path with
  | error e => exact Or.inl ⟨e, rfl, rfl⟩
  | ok root => exact Or.inr ⟨_, _, rfl, rfl, h.lookup root⟩

theorem destination_directory (h : Corresponds R disk disk') {path : Path}
    (hpath : disk.destination path = .ok (.directory place)) :
    disk'.destination path = .ok (.directory place) := by
  rcases h.destination_cases path with ⟨_, herror, _⟩ | ⟨found, found', hfound, hfound', hkind⟩
  · rw [hpath] at herror
    cases herror
  · rw [hpath] at hfound
    cases hfound
    cases hkind
    exact hfound'

theorem lastPlace?_eq (h : Corresponds R disk disk') (base path : List String) :
    disk.lastPlace? base path = disk'.lastPlace? base path := by
  have hdescent := h.descend base path.dropLast
  unfold lastPlace?
  generalize Disk.descend disk base path.dropLast = d at hdescent ⊢
  generalize Disk.descend disk' base path.dropLast = d' at hdescent ⊢
  cases hdescent with
  | link place target rest => rfl
  | reached hfound => cases hfound <;> rfl

theorem filePlaceFrom?_eq (h : Corresponds R disk disk') (links : Nat) (base path : List String) :
    disk.filePlaceFrom? links base path = disk'.filePlaceFrom? links base path := by
  induction links generalizing base path with
  | zero =>
    have hdescent := h.descend base path
    rw [filePlaceFrom?, filePlaceFrom?, h.lastPlace?_eq]
    generalize Disk.descend disk base path = d at hdescent ⊢
    generalize Disk.descend disk' base path = d' at hdescent ⊢
    cases hdescent <;> rfl
  | succ links ih =>
    have hdescent := h.descend base path
    rw [filePlaceFrom?, filePlaceFrom?, h.lastPlace?_eq]
    generalize Disk.descend disk base path = d at hdescent ⊢
    generalize Disk.descend disk' base path = d' at hdescent ⊢
    cases hdescent with
    | link place target rest => exact ih _ _
    | reached hfound => rfl

theorem filePlace?_eq (h : Corresponds R disk disk') (path : Path) :
    disk.filePlace? path = disk'.filePlace? path :=
  h.filePlaceFrom?_eq linkLimit [] path.segments

theorem isFile_eq (h : Corresponds R disk disk') (path : Path) :
    disk.isFile path = disk'.isFile path := by
  obtain ⟨hfile, herror⟩ := (h.lookup path).isFile_eq
  rw [isFile, isFile, hfile, herror]

theorem directory?_eq (h : Corresponds R disk disk') (path : Path) :
    disk.directory? path = disk'.directory? path := by
  have hfound := h.lookup path
  unfold directory?
  generalize disk.lookup path = found at hfound ⊢
  generalize disk'.lookup path = found' at hfound ⊢
  cases hfound <;> rfl

theorem lists_eq (h : Corresponds R disk disk') (path : Path) :
    disk.lists path = disk'.lists path := by
  rw [lists, lists, h.directory?_eq]
  simp only [h.rights]

theorem bytes? (h : Corresponds R disk disk') (path : Path) :
    Option.Rel R (disk.bytes? path) (disk'.bytes? path) := by
  have hfound := h.lookup path
  unfold Disk.bytes?
  generalize disk.lookup path = found at hfound ⊢
  generalize disk'.lookup path = found' at hfound ⊢
  cases hfound with
  | file hbytes => exact hbytes
  | _ => exact .none

/-- What is read of related bytes alike is read of the files alike. -/
theorem bind_bytes?_eq {α : Type} {f : List UInt8 → Option α} (hf : ∀ b b', R b b' → f b = f b')
    (h : Corresponds R disk disk') (path : Path) :
    (disk.bytes? path).bind f = (disk'.bytes? path).bind f := by
  have hbytes := h.bytes? path
  generalize disk.bytes? path = b at hbytes ⊢
  generalize disk'.bytes? path = b' at hbytes ⊢
  cases hbytes with
  | none => rfl
  | some hbytes => exact hf _ _ hbytes

/-! ## Walking -/

theorem stands (h : Corresponds R disk disk') {path : Path} {isDirectory : Bool}
    (hstands : Walk.Stands disk place path isDirectory) :
    Walk.Stands disk' place path isDirectory := by
  cases hstands with
  | directory hat =>
    obtain ⟨inner, hat'⟩ := h.isDirectory ⟨_, hat⟩
    exact .directory hat'
  | file hat =>
    obtain ⟨_, hat', _⟩ := h.exists_file hat
    exact .file hat'
  | link hat hfile => exact .link (h.at?_link hat) ((h.lookup path).isFile_eq.1 ▸ hfile)

theorem listed (h : Corresponds R disk disk') {skip : NameSet} {root : Path} {place : List String}
    {e : WalkEntry} (he : Walk.Listed disk skip root place e) :
    Walk.Listed disk' skip root place e :=
  ⟨he.nonempty, h.stands he.stands, fun q hq hne => h.lists_eq _ ▸ he.open_ q hq hne, he.above,
    he.self⟩

/-- The same is visited. -/
theorem entries_eq (h : Corresponds R disk disk') (hdisk : disk.WellFormed)
    (hdisk' : disk'.WellFormed) (root : Path) (skip : NameSet) :
    Walk.entries disk root skip = Walk.entries disk' root skip := by
  cases hroot : disk.directory? root with
  | none =>
    rw [Walk.entries, Walk.entries, ← h.directory?_eq, hroot]
    rfl
  | some place =>
    exact Walk.entries_eq_of_listed_iff hdisk hdisk' hroot (h.directory?_eq root ▸ hroot)
      fun _ => ⟨h.listed, h.symm.listed⟩

end Corresponds

end Disk

end RepoSurvey
