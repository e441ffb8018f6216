import RepoSurvey.Proofs.Disk.Named

/-!
# Looking up paths on a well-formed disk

* `Disk.WellFormed`: what file systems guarantee of the tree of everything;
* `Disk.IsDirectory`, `Disk.Reaches`: a path, taken without links, leads to a directory, and it does
  so too when it is looked up;
* `Disk.Turn`, `Disk.turn`: what one name of a path does;
* `Disk.follow_append`: a path through directories is followed by going on from there;
* `Disk.isDirectory_of_lookup`: a directory that is looked up stands where it is said to;
* `Disk.exists_entry_of_lookup`: a file that is looked up in a directory has an entry in it;
* `Disk.Settles`: probing some paths in turn comes to an end.
-/

namespace RepoSurvey

namespace FileTree

theorem Distinct.entries {t : FileTree} (h : t.Distinct) :
    (t.entries.map (·.1)).Nodup ∧ ∀ e ∈ t.entries, e.2.Distinct := by
  cases h with
  | file => simp [FileTree.entries]
  | link => simp [FileTree.entries]
  | directory entries hnames hall => exact ⟨hnames, hall⟩

theorem Distinct.at? {t u : FileTree} (h : t.Distinct) {path : List String}
    (hu : t.at? path = some u) : u.Distinct := by
  induction path generalizing t with
  | nil =>
    cases hu
    exact h
  | cons name path ih =>
    rw [FileTree.at?] at hu
    obtain ⟨v, hv, hu⟩ := Option.bind_eq_some_iff.mp hu
    exact ih (h.entries.2 _ (mem_of_find? hv)) hu

theorem distinct_iff {t : FileTree} :
    t.Distinct ↔ everyDirectory (fun names => decide names.Nodup) t = true := by
  induction t using FileTree.induction with
  | file bytes => exact iff_of_true (.file bytes) rfl
  | link target => exact iff_of_true (.link target) rfl
  | directory entries ih =>
    rw [everyDirectory, Bool.and_eq_true, insideEvery_iff]
    constructor
    · rintro (_ | _ | ⟨_, hnames, hall⟩)
      exact ⟨by simpa using hnames, fun e he => (ih e he).mp (hall e he)⟩
    · rintro ⟨hnames, hall⟩
      exact .directory _ (by simpa using hnames) fun e he => (ih e he).mpr (hall e he)

instance (t : FileTree) : Decidable t.Distinct := decidable_of_iff _ distinct_iff.symm

end FileTree

namespace Disk

open FileTree

/-- A path, taken without links, leads to a directory. -/
def IsDirectory (disk : Disk) (place : List String) : Prop :=
  ∃ entries, disk.tree.at? place = some (.directory entries)

/-- What file systems guarantee of the tree of everything: the root is a directory, names can be
stored, and the names in a directory differ. -/
structure WellFormed (disk : Disk) : Prop where
  root : disk.tree.isDirectory = true
  named : disk.tree.Named
  distinct : disk.tree.Distinct

instance (disk : Disk) : Decidable disk.WellFormed :=
  decidable_of_iff (disk.tree.isDirectory = true ∧ disk.tree.Named ∧ disk.tree.Distinct)
    ⟨fun ⟨h₁, h₂, h₃⟩ => ⟨h₁, h₂, h₃⟩, fun h => ⟨h.root, h.named, h.distinct⟩⟩

variable {disk : Disk}

theorem WellFormed.isDirectory_root (h : disk.WellFormed) : IsDirectory disk [] := by
  have hroot := h.root
  unfold IsDirectory
  cases htree : disk.tree with
  | file bytes => simp [htree, isDirectory] at hroot
  | link target => simp [htree, isDirectory] at hroot
  | directory entries => exact ⟨entries, rfl⟩

theorem WellFormed.nodup_names (h : disk.WellFormed) {place : List String}
    {entries : List (String × FileTree)} (hat : disk.tree.at? place = some (.directory entries)) :
    (entries.map (·.1)).Nodup :=
  (h.distinct.at? hat).entries.1

/-- Where something stands below, there is a directory. -/
theorem isDirectory_of_at?_below {place rest : List String} {name : String} {t : FileTree}
    (h : disk.tree.at? (place ++ name :: rest) = some t) : IsDirectory disk place := by
  rw [at?_append] at h
  obtain ⟨u, hu, hbelow⟩ := Option.bind_eq_some_iff.mp h
  cases u with
  | file bytes => cases hbelow
  | link target => cases hbelow
  | directory inner => exact ⟨inner, hu⟩

theorem IsDirectory.of_append {p q : List String} (h : IsDirectory disk (p ++ q)) :
    IsDirectory disk p := by
  obtain ⟨entries, hentries⟩ := h
  cases q with
  | nil => exact ⟨entries, by rwa [List.append_nil] at hentries⟩
  | cons name q => exact isDirectory_of_at?_below hentries

theorem IsDirectory.dropLast {place : List String} (h : IsDirectory disk place) :
    IsDirectory disk place.dropLast := by
  rcases List.eq_nil_or_concat place with rfl | ⟨front, name, rfl⟩
  · exact h
  · rw [List.concat_eq_append, List.dropLast_concat]
    rw [List.concat_eq_append] at h
    exact h.of_append

theorem entryName_of_at? {t u : FileTree} (hnamed : t.Named) {place : List String}
    (h : t.at? place = some u) : ∀ s ∈ place, EntryName s := by
  induction place generalizing t with
  | nil => simp
  | cons name place ih =>
    rw [at?] at h
    obtain ⟨v, hv, h⟩ := Option.bind_eq_some_iff.mp h
    obtain ⟨hname, hv'⟩ := hnamed.entries _ (mem_of_find? hv)
    exact List.forall_mem_cons.mpr ⟨hname, ih hv' h⟩

/-! ## Going down -/

/-- A directory on the way may not be searched. -/
theorem descend_denied {place : List String} (h : (disk.rights place).search = false)
    (name : String) (rest : List String) :
    descend disk place (name :: rest) = .reached .denied := by
  rw [descend, if_pos (by rw [h]; rfl)]

/-- Going down to a proper name from a directory that may be searched. -/
theorem descend_cons {place : List String} (hsearch : (disk.rights place).search = true)
    {name : String} (hdot : name ≠ ".") (hdots : name ≠ "..")
    (hshort : name.utf8ByteSize ≤ nameLimit) (rest : List String) :
    descend disk place (name :: rest) = match disk.tree.at? (place ++ [name]) with
      | none => .reached .absent
      | some (.file bytes) =>
        if rest.isEmpty then .reached (.file (disk.contents? (place ++ [name]) bytes))
        else .reached .absent
      | some (.link target) => .link place target rest
      | some (.directory _) => descend disk (place ++ [name]) rest := by
  rw [descend]
  exact (if_neg (by simp [hsearch])).trans ((if_neg hdot).trans ((if_neg hdots).trans
    (if_neg (Nat.not_lt.mpr hshort))))

/-- A file or a directory is found. -/
def Found.stands : Found → Bool
  | .file _ => true
  | .directory _ => true
  | _ => false

/-- What a name does before the tree is looked at depends on the right to search the directory
alone: dots lead on, and nothing is found if the directory may not be searched or the name is too
long. -/
theorem descend_cons_cases (place : List String) (name : String) (search : Bool) :
    (∃ next, (name = "." ∧ next = place ∨ name = ".." ∧ next = place.dropLast) ∧ search = true
        ∧ ∀ disk : Disk, (disk.rights place).search = search →
          ∀ rest, descend disk place (name :: rest) = descend disk next rest)
      ∨ (∃ found : Found, found.stands = false
        ∧ ∀ disk : Disk, (disk.rights place).search = search →
          ∀ rest, descend disk place (name :: rest) = .reached found)
      ∨ search = true ∧ name ≠ "." ∧ name ≠ ".." ∧ name.utf8ByteSize ≤ nameLimit := by
  cases search with
  | false => exact Or.inr (Or.inl ⟨.denied, rfl, fun disk h => descend_denied h name⟩)
  | true =>
    by_cases hdot : name = "."
    · refine Or.inl ⟨place, Or.inl ⟨hdot, rfl⟩, rfl, fun disk h rest => ?_⟩
      rw [descend, if_neg (by simp [h]), if_pos hdot]
    by_cases hdots : name = ".."
    · refine Or.inl ⟨place.dropLast, Or.inr ⟨hdots, rfl⟩, rfl, fun disk h rest => ?_⟩
      rw [descend, if_neg (by simp [h]), if_neg hdot, if_pos hdots]
    by_cases hlong : name.utf8ByteSize > nameLimit
    · refine Or.inr (Or.inl ⟨.nameTooLong, rfl, fun disk h rest => ?_⟩)
      rw [descend, if_neg (by simp [h]), if_neg hdot, if_neg hdots, if_pos hlong]
    · exact Or.inr (Or.inr ⟨rfl, hdot, hdots, Nat.not_lt.mp hlong⟩)

/-- What the first name of a path does, whatever is behind it: dots and directories lead on, a file
is found if it is the end, a link is met, or nothing is found. -/
inductive Turn (disk : Disk) (place : List String) (name : String) : Prop
  | dots {next : List String}
      (hname : name = "." ∧ next = place ∨ name = ".." ∧ next = place.dropLast)
      (hsearch : (disk.rights place).search = true)
      (hstep : ∀ rest, descend disk place (name :: rest) = descend disk next rest)
  | directory (hsearch : (disk.rights place).search = true)
      (hdirectory : IsDirectory disk (place ++ [name]))
      (hstep : ∀ rest, descend disk place (name :: rest) = descend disk (place ++ [name]) rest)
  | file {bytes : List UInt8} (hsearch : (disk.rights place).search = true)
      (hat : disk.tree.at? (place ++ [name]) = some (.file bytes))
      (hend : descend disk place [name]
        = .reached (.file (disk.contents? (place ++ [name]) bytes)))
      (hbehind : ∀ next rest, descend disk place (name :: next :: rest) = .reached .absent)
  | link {target : String} (hsearch : (disk.rights place).search = true)
      (hat : disk.tree.at? (place ++ [name]) = some (.link target))
      (hstep : ∀ rest, descend disk place (name :: rest) = .link place target rest)
  | stuck {found : Found} (hnothing : found.stands = false)
      (hstep : ∀ rest, descend disk place (name :: rest) = .reached found)

theorem turn (disk : Disk) (place : List String) (name : String) : Turn disk place name := by
  rcases descend_cons_cases place name (disk.rights place).search with
    ⟨next, hname, hsearch, hstep⟩ | ⟨found, hnothing, hstep⟩ | ⟨hsearch, hdot, hdots, hshort⟩
  · exact .dots hname hsearch (hstep disk rfl)
  · exact .stuck hnothing (hstep disk rfl)
  · have hstep := descend_cons hsearch hdot hdots hshort
    cases hat : disk.tree.at? (place ++ [name]) with
    | none => exact .stuck rfl fun rest => by rw [hstep, hat]
    | some t =>
      cases t with
      | file bytes =>
        refine .file hsearch hat ?_ fun next rest => ?_
        · rw [hstep, hat]
          rfl
        · rw [hstep, hat]
          rfl
      | link target => exact .link hsearch hat fun rest => by rw [hstep, hat]
      | directory inner => exact .directory hsearch ⟨inner, hat⟩ fun rest => by rw [hstep, hat]

/-- A path behind a path that ends in a directory is gone down from there. -/
theorem descend_append {base path place : List String}
    (h : descend disk base path = .reached (.directory place)) (rest : List String) :
    descend disk base (path ++ rest) = descend disk place rest := by
  induction path generalizing base with
  | nil =>
    cases h
    rfl
  | cons name path ih =>
    rw [List.cons_append]
    cases turn disk base name with
    | dots _ _ hstep =>
      rw [hstep] at h ⊢
      exact ih h
    | directory _ _ hstep =>
      rw [hstep] at h ⊢
      exact ih h
    | file _ _ hend hbehind =>
      cases path with
      | nil =>
        rw [hend] at h
        cases h
      | cons next path =>
        rw [hbehind] at h
        cases h
    | link _ _ hstep =>
      rw [hstep] at h
      cases h
    | stuck hnothing hstep =>
      rw [hstep] at h
      cases h
      cases hnothing

/-- A directory is reached by going down to where it stands, or what is below it is denied. -/
theorem descend_isDirectory (hnamed : disk.tree.Named) (base path : List String)
    (h : IsDirectory disk (base ++ path)) :
    descend disk base path = .reached (.directory (base ++ path))
      ∨ ∀ rest, descend disk base (path ++ rest) = .reached .denied := by
  induction path generalizing base with
  | nil => exact Or.inl (by rw [List.append_nil]; rfl)
  | cons name path ih =>
    have hsplit : base ++ name :: path = (base ++ [name]) ++ path := by simp
    rw [hsplit] at h ⊢
    obtain ⟨inner, hinner⟩ := h.of_append
    have hname : EntryName name := entryName_of_at? hnamed hinner name (by simp)
    cases hsearch : (disk.rights base).search with
    | false => exact Or.inr fun rest => descend_denied hsearch name (path ++ rest)
    | true =>
      have hstep : ∀ rest, descend disk base (name :: rest) = descend disk (base ++ [name]) rest :=
        fun rest => by rw [descend_cons hsearch hname.ne_dot hname.ne_dots hname.short, hinner]
      rw [hstep]
      refine (ih (base ++ [name]) h).imp_right fun hdenied rest => ?_
      rw [List.cons_append, hstep]
      exact hdenied rest

theorem follow_eq (links : Nat) (place path : List String) :
    follow disk links place path = match descend disk place path with
      | .reached found => found
      | .link place target rest =>
        match links with
        | 0 => .tooManyLinks
        | links + 1 =>
          follow disk links (if target.startsWith "/" then [] else place)
            (targetSegments target ++ rest) :=
  follow.eq_def disk links place path

theorem follow_append {links : Nat} {base path place : List String}
    (h : descend disk base path = .reached (.directory place)) (rest : List String) :
    follow disk links base (path ++ rest) = follow disk links place rest := by
  rw [follow_eq, follow_eq, descend_append h]

/-- Going down from a directory ends in a directory or at a link in one, if not at a file. -/
theorem isDirectory_of_descend {base path : List String} (hbase : IsDirectory disk base) :
    (∀ place, descend disk base path = .reached (.directory place) → IsDirectory disk place)
      ∧ ∀ place target rest, descend disk base path = .link place target rest →
        IsDirectory disk place := by
  induction path generalizing base with
  | nil =>
    constructor
    · intro place h
      cases h
      exact hbase
    · intro place target rest h
      cases h
  | cons name path ih =>
    cases turn disk base name with
    | dots hname _ hstep =>
      rw [hstep]
      rcases hname with ⟨_, rfl⟩ | ⟨_, rfl⟩
      · exact ih hbase
      · exact ih hbase.dropLast
    | directory _ hdirectory hstep =>
      rw [hstep]
      exact ih hdirectory
    | file _ _ hend hbehind =>
      cases path with
      | nil => simp [hend]
      | cons next path => simp [hbehind]
    | link _ _ hstep =>
      rw [hstep]
      refine ⟨fun place h => (by cases h), fun place target rest h => ?_⟩
      cases h
      exact hbase
    | stuck hnothing hstep =>
      rw [hstep]
      refine ⟨fun place h => ?_, fun place target rest h => (by cases h)⟩
      cases h
      cases hnothing

theorem isDirectory_of_follow (hroot : IsDirectory disk []) {links : Nat}
    {base path place : List String} (hbase : IsDirectory disk base)
    (h : follow disk links base path = .directory place) : IsDirectory disk place := by
  induction links generalizing base path with
  | zero =>
    rw [follow_eq] at h
    cases hd : descend disk base path with
    | reached found =>
      rw [hd] at h
      cases h
      exact (isDirectory_of_descend hbase).1 _ hd
    | link place target rest =>
      rw [hd] at h
      cases h
  | succ links ih =>
    rw [follow_eq] at h
    cases hd : descend disk base path with
    | reached found =>
      rw [hd] at h
      cases h
      exact (isDirectory_of_descend hbase).1 _ hd
    | link place target rest =>
      rw [hd] at h
      refine ih ?_ h
      split
      · exact hroot
      · exact (isDirectory_of_descend hbase).2 _ _ _ hd

/-! ## Looking up -/

theorem directory?_eq_some {path : Path} {place : List String} :
    disk.directory? path = some place ↔ disk.lookup path = .directory place := by
  unfold directory?
  cases disk.lookup path <;> simp

theorem bytes?_eq_some {path : Path} {bytes : List UInt8} :
    disk.bytes? path = some bytes ↔ disk.lookup path = .file (some bytes) := by
  unfold bytes?
  cases disk.lookup path <;> simp

theorem Found.isFile_iff {found : Found} : found.isFile = true ↔ ∃ bytes, found = .file bytes := by
  cases found <;> simp [Found.isFile]

/-- What is found is found by following the path. -/
theorem follow_of_lookup {path : Path} {found : Found} (h : lookup disk path = found)
    (habsent : found ≠ .absent) (hlong : found ≠ .nameTooLong) :
    follow disk linkLimit [] path.segments = found := by
  unfold lookup at h
  split at h
  · exact absurd h.symm habsent
  · split at h
    · exact absurd h.symm hlong
    · exact h

theorem WellFormed.isDirectory_of_lookup (h : disk.WellFormed) {path : Path} {place : List String}
    (hplace : lookup disk path = .directory place) : IsDirectory disk place :=
  isDirectory_of_follow h.isDirectory_root h.isDirectory_root
    (follow_of_lookup hplace (fun h => by cases h) (fun h => by cases h))

/-- A directory is found where it stands, if it is found by its own path. -/
theorem eq_of_lookup_place (hnamed : disk.tree.Named) {place found : List String}
    (hplace : IsDirectory disk place) (h : lookup disk ⟨true, place⟩ = .directory found) :
    found = place := by
  have hfollow := follow_of_lookup h (fun h => by cases h) (fun h => by cases h)
  rw [follow_eq] at hfollow
  rcases descend_isDirectory hnamed [] place hplace with hreached | hdenied
  · rw [hreached] at hfollow
    cases hfollow
    rfl
  · have hend := hdenied []
    rw [List.append_nil] at hend
    rw [hend] at hfollow
    cases hfollow

/-- A path without links leads to the directory that stands there. -/
def Reaches (disk : Disk) (place : List String) : Prop :=
  disk.lookup ⟨true, place⟩ = .directory place

theorem Reaches.isDirectory (h : disk.WellFormed) {place : List String}
    (hplace : disk.Reaches place) : IsDirectory disk place :=
  h.isDirectory_of_lookup hplace

theorem Reaches.descend (h : disk.WellFormed) {place : List String} (hplace : disk.Reaches place) :
    descend disk [] place = .reached (.directory place) := by
  rcases descend_isDirectory h.named [] place (hplace.isDirectory h) with hreached | hdenied
  · exact hreached
  · have hfollow := follow_of_lookup hplace (fun h => by cases h) (fun h => by cases h)
    have hend := hdenied []
    rw [List.append_nil] at hend
    rw [follow_eq, hend] at hfollow
    cases hfollow

/-- A file in a directory is an entry of it, or a link that is one leads to it. -/
theorem exists_entry_of_lookup (h : disk.WellFormed) {place : List String}
    {entries : List (String × FileTree)} (hat : disk.tree.at? place = some (.directory entries))
    {name : String} (hname : EntryName name)
    (hfile : (lookup disk ⟨true, place ++ [name]⟩).isFile = true) :
    (∃ bytes, (name, .file bytes) ∈ entries) ∨ ∃ target, (name, .link target) ∈ entries := by
  obtain ⟨bytes, hfile⟩ := Found.isFile_iff.mp hfile
  have hfollow := follow_of_lookup hfile (fun h => by cases h) (fun h => by cases h)
  rcases descend_isDirectory h.named [] place ⟨entries, hat⟩ with hreached | hdenied
  · rw [follow_append hreached, List.nil_append, follow_eq] at hfollow
    cases hsearch : (disk.rights place).search with
    | false =>
      rw [descend_denied hsearch] at hfollow
      cases hfollow
    | true =>
      rw [descend_cons hsearch hname.ne_dot hname.ne_dots hname.short, at?_directory_child hat]
        at hfollow
      cases hfind : find? name entries with
      | none =>
        rw [hfind] at hfollow
        cases hfollow
      | some t =>
        rw [hfind] at hfollow
        have hmem := mem_of_find? hfind
        cases t with
        | file found => exact Or.inl ⟨found, hmem⟩
        | link target => exact Or.inr ⟨target, hmem⟩
        | directory inner => cases hfollow
  · rw [follow_eq, hdenied] at hfollow
    cases hfollow

/-! ## Probing -/

/-- Probing some paths for a file comes to an end: there is a file before any path of which it
cannot be told what it leads to. -/
def Settles (disk : Disk) : List Path → Prop
  | [] => True
  | p :: rest => (∃ bytes, disk.lookup p = .file bytes)
      ∨ (disk.lookup p).error? = none ∧ Settles disk rest

theorem isFile_cases (disk : Disk) (p : Path) :
    (∃ bytes, disk.lookup p = .file bytes) ∧ disk.isFile p = .ok true
      ∨ (¬ ∃ bytes, disk.lookup p = .file bytes) ∧ (disk.lookup p).error? = none
        ∧ disk.isFile p = .ok false
      ∨ (¬ ∃ bytes, disk.lookup p = .file bytes)
        ∧ ∃ e, (disk.lookup p).error? = some e ∧ disk.isFile p = .error e := by
  unfold isFile
  cases disk.lookup p with
  | file bytes => exact Or.inl ⟨⟨bytes, rfl⟩, rfl⟩
  | directory place => simp [Found.error?, Found.isFile]
  | absent => simp [Found.error?, Found.isFile]
  | nameTooLong => simp [Found.error?]
  | denied => simp [Found.error?]
  | tooManyLinks => simp [Found.error?, Found.isFile]

theorem isFile_eq_true {p : Path} :
    disk.isFile p = .ok true ↔ ∃ bytes, disk.lookup p = .file bytes := by
  rcases disk.isFile_cases p with ⟨hfile, h⟩ | ⟨hno, _, h⟩ | ⟨hno, e, _, h⟩
  · exact iff_of_true h hfile
  · simp [h, hno]
  · simp [h, hno]

theorem exists_isFile_ok_iff {p : Path} :
    (∃ answer, disk.isFile p = .ok answer) ↔ (disk.lookup p).error? = none := by
  rcases disk.isFile_cases p with ⟨⟨bytes, hfile⟩, h⟩ | ⟨_, hnone, h⟩ | ⟨_, e, he, h⟩
  · simp [h, hfile, Found.error?]
  · simp [h, hnone]
  · simp [h, he]

/-- One probe, with the rest of the probing after it. -/
theorem exists_probe_ok_iff {α : Type} {p : Path} {paths : List Path} {found : α}
    {rest : Except SurveyError (Option α)}
    (hrest : (∃ answer, rest = .ok answer) ↔ disk.Settles paths) :
    (∃ answer, (do if ← disk.isFile p then return some found else rest) = .ok answer)
      ↔ disk.Settles (p :: paths) := by
  rw [Settles]
  rcases disk.isFile_cases p with ⟨hfile, h⟩ | ⟨hno, hnone, h⟩ | ⟨hno, e, he, h⟩
  · rw [h]
    exact iff_of_true ⟨some found, rfl⟩ (Or.inl hfile)
  · rw [h, or_iff_right hno, and_iff_right hnone, ← hrest]
    rfl
  · rw [h, or_iff_right hno, he]
    refine iff_of_false ?_ fun ⟨hnone, _⟩ => by cases hnone
    rintro ⟨_, hok⟩
    cases hok

theorem exists_firstFile?_ok_iff {directory : Path} {names : List String} :
    (∃ found, disk.firstFile? directory names = .ok found)
      ↔ disk.Settles (names.map directory.child) := by
  induction names with
  | nil => exact iff_of_true ⟨none, rfl⟩ trivial
  | cons name rest ih => exact exists_probe_ok_iff ih

/-- What is found is a file, and none of the names before it is. -/
theorem firstFile?_first {directory : Path} {names : List String} {name : String}
    (h : disk.firstFile? directory names = .ok (some name)) :
    ∃ before after, names = before ++ name :: after
      ∧ (∃ bytes, disk.lookup (directory.child name) = .file bytes)
      ∧ ∀ other ∈ before, ¬ ∃ bytes, disk.lookup (directory.child other) = .file bytes := by
  induction names with
  | nil => cases h
  | cons first rest ih =>
    rw [firstFile?] at h
    rcases disk.isFile_cases (directory.child first) with
      ⟨hfile, his⟩ | ⟨hno, _, his⟩ | ⟨_, _, _, his⟩
    · rw [his] at h
      cases h
      exact ⟨[], rest, rfl, hfile, by simp⟩
    · rw [his] at h
      obtain ⟨before, after, rfl, hfile, hbefore⟩ := ih h
      exact ⟨first :: before, after, rfl, hfile, List.forall_mem_cons.mpr ⟨hno, hbefore⟩⟩
    · rw [his] at h
      cases h

/-- What is found is one of the names, and a file. -/
theorem firstFile?_eq_some {directory : Path} {names : List String} {name : String}
    (h : disk.firstFile? directory names = .ok (some name)) :
    name ∈ names ∧ ∃ bytes, disk.lookup (directory.child name) = .file bytes := by
  obtain ⟨before, after, rfl, hfile, _⟩ := firstFile?_first h
  exact ⟨by simp, hfile⟩

theorem firstFile?_eq_none {directory : Path} {names : List String}
    (h : disk.firstFile? directory names = .ok none) :
    ∀ name ∈ names, ¬ ∃ bytes, disk.lookup (directory.child name) = .file bytes := by
  induction names with
  | nil => simp
  | cons first rest ih =>
    rw [firstFile?] at h
    rcases disk.isFile_cases (directory.child first) with ⟨_, his⟩ | ⟨hno, _, his⟩ | ⟨_, _, _, his⟩
    · rw [his] at h
      cases h
    · rw [his] at h
      exact List.forall_mem_cons.mpr ⟨hno, ih h⟩
    · rw [his] at h
      cases h

end Disk

end RepoSurvey
