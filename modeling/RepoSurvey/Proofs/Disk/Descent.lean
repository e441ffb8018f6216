import RepoSurvey.Proofs.Disk.Lookup

/-!
# Going down a path, as a relation

Where a path leads to something, the way down is told by what stands on it. Whatever a second disk
adds, the same way leads down to the same on it.

* `Disk.Descends`: going down a path ends at a directory, at a file or at a link;
* `Disk.descends_of_descend`, `Disk.Descends.descend_eq`: that is where `Disk.descend` ends;
* `Disk.Descends.descend_append`, `Disk.Follows.follow_append`: ways that go on;
* `Disk.lookup_child`: something in a directory that a path leads to;
* `Disk.filePlace?`, `Disk.at?_filePlace`: where the file stands that a path leads to;
* `Disk.Extends`: a disk holds all directories and links of another one, with
  `Disk.Extends.directory?`.
-/

namespace RepoSurvey.Disk

variable {disk disk' : Disk} {base path place : List String} {d : Descent} {links : Nat}
  {found : Found}

/-- Going down a path from a directory ends somewhere: in a directory, at a file, or at a link with
the rest of the path behind it. Every directory on the way may be searched. -/
inductive Descends (disk : Disk) : List String → List String → Descent → Prop
  | here (place : List String) : Descends disk place [] (.reached (.directory place))
  | dot {place rest : List String} {d : Descent} : (disk.rights place).search = true →
      Descends disk place rest d → Descends disk place ("." :: rest) d
  | dots {place rest : List String} {d : Descent} : (disk.rights place).search = true →
      Descends disk place.dropLast rest d → Descends disk place (".." :: rest) d
  | directory {place rest : List String} {name : String} {d : Descent} :
      (disk.rights place).search = true → IsDirectory disk (place ++ [name]) →
      Descends disk (place ++ [name]) rest d → Descends disk place (name :: rest) d
  | file {place : List String} {name : String} {bytes : List UInt8} :
      (disk.rights place).search = true → disk.tree.at? (place ++ [name]) = some (.file bytes) →
      Descends disk place [name] (.reached (.file (disk.contents? (place ++ [name]) bytes)))
  | link {place rest : List String} {name target : String} :
      (disk.rights place).search = true → disk.tree.at? (place ++ [name]) = some (.link target) →
      Descends disk place (name :: rest) (.link place target rest)

/-- Going down ends somewhere. -/
def Descent.ends : Descent → Bool
  | .reached found => found.stands
  | .link _ _ _ => true

theorem descends_of_descend (hends : d.ends = true) (h : descend disk base path = d) :
    Descends disk base path d := by
  induction path generalizing base with
  | nil =>
    cases h
    exact .here base
  | cons name rest ih =>
    cases turn disk base name with
    | dots hname hsearch hstep =>
      rw [hstep] at h
      rcases hname with ⟨rfl, rfl⟩ | ⟨rfl, rfl⟩
      · exact .dot hsearch (ih h)
      · exact .dots hsearch (ih h)
    | directory hsearch hdirectory hstep =>
      rw [hstep] at h
      exact .directory hsearch hdirectory (ih h)
    | file hsearch hat hend hbehind =>
      cases rest with
      | nil => exact h ▸ hend ▸ .file hsearch hat
      | cons next rest =>
        rw [hbehind] at h
        cases h
        cases hends
    | link hsearch hat hstep =>
      rw [hstep] at h
      cases h
      exact .link hsearch hat
    | stuck hnothing hstep =>
      rw [hstep] at h
      cases h
      exact absurd hends (by rw [Descent.ends, hnothing]; exact Bool.false_ne_true)

/-- Where something stands under a name, it is gone to. -/
theorem descend_of_at? (hnamed : disk.tree.Named) (hsearch : (disk.rights place).search = true)
    {name : String} {t : FileTree} (rest : List String) :
    disk.tree.at? (place ++ [name]) = some t →
      descend disk place (name :: rest) = match t with
        | .file bytes =>
          if rest.isEmpty then .reached (.file (disk.contents? (place ++ [name]) bytes))
          else .reached .absent
        | .link target => .link place target rest
        | .directory _ => descend disk (place ++ [name]) rest := by
  intro hat
  have hname : FileTree.EntryName name := entryName_of_at? hnamed hat name (by simp)
  rw [descend_cons hsearch hname.ne_dot hname.ne_dots hname.short, hat]
  cases t <;> rfl

theorem descend_dot (hsearch : (disk.rights place).search = true) (rest : List String) :
    descend disk place ("." :: rest) = descend disk place rest := by
  rw [descend, if_neg (by simp [hsearch]), if_pos rfl]

theorem descend_dots (hsearch : (disk.rights place).search = true) (rest : List String) :
    descend disk place (".." :: rest) = descend disk place.dropLast rest := by
  rw [descend, if_neg (by simp [hsearch]), if_neg (by decide), if_pos rfl]

theorem Descends.descend_eq (hnamed : disk.tree.Named) (h : Descends disk base path d) :
    descend disk base path = d := by
  induction h with
  | here place => rfl
  | dot hsearch _ ih => rwa [descend_dot hsearch]
  | dots hsearch _ ih => rwa [descend_dots hsearch]
  | @directory _ rest _ _ hsearch hdirectory _ ih =>
    obtain ⟨inner, hat⟩ := hdirectory
    exact (descend_of_at? hnamed hsearch rest hat).trans ih
  | file hsearch hat => exact descend_of_at? hnamed hsearch [] hat
  | @link _ rest _ _ hsearch hat => exact descend_of_at? hnamed hsearch rest hat

/-! ## Ways that go on -/

/-- Behind a link the rest of the path is only longer. -/
theorem Descends.link_append {target : String} {more : List String} (rest : List String)
    (h : Descends disk base path (.link place target more)) :
    Descends disk base (path ++ rest) (.link place target (more ++ rest)) := by
  generalize hd : Descent.link place target more = found at h
  induction h with
  | here place' => cases hd
  | dot hsearch _ ih => exact .dot hsearch (ih hd)
  | dots hsearch _ ih => exact .dots hsearch (ih hd)
  | directory hsearch hdirectory _ ih => exact .directory hsearch hdirectory (ih hd)
  | file _ _ => cases hd
  | link hsearch hat =>
    cases hd
    exact .link hsearch hat

/-- A path that ends at a link is one to the link, and the rest behind it. -/
theorem Descends.exists_link {target : String} {rest : List String}
    (h : Descends disk base path (.link place target rest)) :
    ∃ front, front ≠ [] ∧ path = front ++ rest
      ∧ Descends disk base front (.link place target []) := by
  generalize hd : Descent.link place target rest = found at h
  induction h with
  | here place' => cases hd
  | dot hsearch _ ih =>
    obtain ⟨front, _, rfl, hfront⟩ := ih hd
    exact ⟨"." :: front, by simp, rfl, .dot hsearch hfront⟩
  | dots hsearch _ ih =>
    obtain ⟨front, _, rfl, hfront⟩ := ih hd
    exact ⟨".." :: front, by simp, rfl, .dots hsearch hfront⟩
  | @directory _ _ name _ hsearch hdirectory _ ih =>
    obtain ⟨front, _, rfl, hfront⟩ := ih hd
    exact ⟨name :: front, by simp, rfl, .directory hsearch hdirectory hfront⟩
  | file _ _ => cases hd
  | @link _ _ name _ hsearch hat =>
    cases hd
    exact ⟨[name], by simp, rfl, .link hsearch hat⟩

/-- A path that ends at a file is one to its directory, and its name. -/
theorem Descends.exists_file {contents : Option (List UInt8)}
    (h : Descends disk base path (.reached (.file contents))) :
    ∃ front name directory bytes, path = front ++ [name]
      ∧ Descends disk base front (.reached (.directory directory))
      ∧ disk.tree.at? (directory ++ [name]) = some (.file bytes)
      ∧ contents = disk.contents? (directory ++ [name]) bytes := by
  generalize hd : Descent.reached (.file contents) = found at h
  induction h with
  | here place' => cases hd
  | dot hsearch _ ih =>
    obtain ⟨front, name, directory, bytes, rfl, hfront, hat⟩ := ih hd
    exact ⟨"." :: front, name, directory, bytes, rfl, .dot hsearch hfront, hat⟩
  | dots hsearch _ ih =>
    obtain ⟨front, name, directory, bytes, rfl, hfront, hat⟩ := ih hd
    exact ⟨".." :: front, name, directory, bytes, rfl, .dots hsearch hfront, hat⟩
  | @directory _ _ first _ hsearch hdirectory _ ih =>
    obtain ⟨front, name, directory, bytes, rfl, hfront, hat⟩ := ih hd
    exact ⟨first :: front, name, directory, bytes, rfl, .directory hsearch hdirectory hfront, hat⟩
  | @file place name bytes _ hat =>
    cases hd
    exact ⟨[], name, place, bytes, rfl, .here place, hat, rfl⟩
  | link _ _ => cases hd

/-- A directory that is gone down to without dots stands at the end of the path. -/
theorem Descends.eq_append (hundotted : ∀ s ∈ path, s ≠ "." ∧ s ≠ "..")
    (h : Descends disk base path (.reached (.directory place))) : place = base ++ path := by
  generalize hd : Descent.reached (.directory place) = found at h
  induction h with
  | here place' =>
    cases hd
    rw [List.append_nil]
  | dot _ _ _ => exact absurd rfl (hundotted "." (by simp)).1
  | dots _ _ _ => exact absurd rfl (hundotted ".." (by simp)).2
  | directory _ _ _ ih =>
    rw [ih (List.forall_mem_cons.mp hundotted).2 hd, List.append_assoc, List.singleton_append]
  | file _ _ => cases hd
  | link _ _ => cases hd

/-! ## Following links -/

/-- A path is followed through at most `links` links, and leads to something. -/
inductive Follows (disk : Disk) : Nat → List String → List String → Found → Prop
  | reached {links : Nat} {base path : List String} {found : Found} :
      Descends disk base path (.reached found) → Follows disk links base path found
  | link {links : Nat} {base path place rest : List String} {target : String} {found : Found} :
      Descends disk base path (.link place target rest) →
      Follows disk links (if target.startsWith "/" then [] else place)
        (targetSegments target ++ rest) found →
      Follows disk (links + 1) base path found

theorem follows_of_follow (hstands : found.stands = true)
    (h : follow disk links base path = found) : Follows disk links base path found := by
  have hreached : ∀ {links base path}, descend disk base path = .reached found →
      Follows disk links base path found := fun hd => .reached (descends_of_descend hstands hd)
  induction links generalizing base path with
  | zero =>
    rw [follow_eq] at h
    cases hd : descend disk base path with
    | reached found' =>
      rw [hd] at h
      exact hreached (h ▸ hd)
    | link place target rest =>
      rw [hd] at h
      cases h
      cases hstands
  | succ links ih =>
    rw [follow_eq] at h
    cases hd : descend disk base path with
    | reached found' =>
      rw [hd] at h
      exact hreached (h ▸ hd)
    | link place target rest =>
      rw [hd] at h
      exact .link (descends_of_descend rfl hd) (ih h)

theorem Follows.follow_eq (hnamed : disk.tree.Named) (h : Follows disk links base path found) :
    follow disk links base path = found := by
  induction h with
  | reached hd => rw [Disk.follow_eq, hd.descend_eq hnamed]
  | link hd _ ih =>
    rw [Disk.follow_eq, hd.descend_eq hnamed]
    exact ih

/-- What is behind a directory is found from there, if there is no link on the way. -/
theorem Follows.follow_append (hnamed : disk.tree.Named) {rest : List String} {below : Found}
    (h : Follows disk links base path (.directory place))
    (hrest : descend disk place rest = .reached below) :
    follow disk links base (path ++ rest) = below := by
  generalize hfound : Found.directory place = found at h
  induction h with
  | reached hd =>
    rw [← hfound] at hd
    rw [Disk.follow_eq, Disk.descend_append (hd.descend_eq hnamed), hrest]
  | link hd _ ih =>
    rw [Disk.follow_eq, (hd.link_append rest).descend_eq hnamed]
    dsimp only
    rw [← List.append_assoc]
    exact ih hfound

theorem follows_of_lookup {p : Path} (h : lookup disk p = found) (hstands : found.stands = true) :
    Follows disk linkLimit [] p.segments found := by
  refine follows_of_follow hstands (follow_of_lookup h ?_ ?_)
  · rintro rfl
    cases hstands
  · rintro rfl
    cases hstands

/-- Something in a directory, if the way to it is not too long and it is no link. -/
theorem lookup_child (hnamed : disk.tree.Named) {p : Path} (h : lookup disk p = .directory place)
    {name : String} (hname : FileTree.EntryName name)
    (hfound : descend disk place [name] = .reached found) :
    lookup disk (p.child name)
      = if (p.child name).text.utf8ByteSize > pathLimit then .nameTooLong else found := by
  have hfollow := (follows_of_lookup h rfl).follow_append hnamed hfound
  have hnull : ¬ (p.child name).hasNull = true := by
    rw [Path.child, Path.hasNull, List.any_append, Bool.or_eq_true, not_or]
    refine ⟨fun hfree => ?_, by simpa using hname.nul_free⟩
    have hnull : p.hasNull = true := hfree
    rw [lookup, if_pos hnull] at h
    cases h
  rw [lookup, if_neg hnull, ← hfollow]
  rfl

/-! ## The places of files -/

/-- The path without links of the last segment of a path. -/
def lastPlace? (disk : Disk) (base path : List String) : Option (List String) :=
  match descend disk base path.dropLast with
  | .reached (.directory directory) => some (directory ++ [path.getLastD ""])
  | _ => none

/-- Where the file stands that a path leads to through at most `links` links. -/
def filePlaceFrom? (disk : Disk) : Nat → List String → List String → Option (List String)
  | links, base, path =>
    match descend disk base path with
    | .reached _ => lastPlace? disk base path
    | .link place target rest =>
      match links with
      | 0 => none
      | links + 1 =>
        filePlaceFrom? disk links (if target.startsWith "/" then [] else place)
          (targetSegments target ++ rest)

/-- Where the file stands that a path leads to. -/
def filePlace? (disk : Disk) (path : Path) : Option (List String) :=
  filePlaceFrom? disk linkLimit [] path.segments

theorem Follows.exists_place (hnamed : disk.tree.Named) {contents : Option (List UInt8)}
    (h : Follows disk links base path (.file contents)) :
    ∃ place bytes, filePlaceFrom? disk links base path = some place
      ∧ disk.tree.at? place = some (.file bytes) ∧ contents = disk.contents? place bytes := by
  generalize hfound : Found.file contents = found at h
  induction h with
  | @reached links base path found hd =>
    rw [← hfound] at hd
    obtain ⟨front, name, directory, bytes, rfl, hfront, hat, hcontents⟩ := hd.exists_file
    refine ⟨directory ++ [name], bytes, ?_, hat, hcontents⟩
    rw [filePlaceFrom?.eq_def]
    simp only [hd.descend_eq hnamed, lastPlace?, List.dropLast_concat, hfront.descend_eq hnamed,
      List.getLastD_concat]
  | link hd _ ih =>
    rw [filePlaceFrom?.eq_def]
    simp only [hd.descend_eq hnamed]
    exact ih hfound

/-- A file that a path leads to stands at its place. -/
theorem at?_filePlace (hnamed : disk.tree.Named) {p : Path} {contents : Option (List UInt8)}
    (h : lookup disk p = .file contents) :
    ∃ place bytes, disk.filePlace? p = some place ∧ disk.tree.at? place = some (.file bytes)
      ∧ contents = disk.contents? place bytes :=
  (follows_of_lookup h rfl).exists_place hnamed

/-! ## Disks that hold more -/

/-- The directories and links of a disk stand on another one too, and the directories have the same
rights. There may be more, and files may differ. -/
structure Extends (disk disk' : Disk) : Prop where
  directory : ∀ {place : List String}, IsDirectory disk place → IsDirectory disk' place
  link : ∀ {place : List String} {target : String},
    disk.tree.at? place = some (.link target) → disk'.tree.at? place = some (.link target)
  rights : ∀ {place : List String}, IsDirectory disk place → disk'.rights place = disk.rights place

namespace Extends

theorem descends (h : Extends disk disk') (hbase : IsDirectory disk base)
    (hfile : ∀ contents, d ≠ .reached (.file contents)) (hd : Descends disk base path d) :
    Descends disk' base path d := by
  have hsearch : ∀ {place}, IsDirectory disk place → (disk.rights place).search = true →
      (disk'.rights place).search = true := fun hplace hsearch => by rw [h.rights hplace, hsearch]
  induction hd with
  | here place => exact .here place
  | dot hs _ ih => exact .dot (hsearch hbase hs) (ih hbase hfile)
  | dots hs _ ih => exact .dots (hsearch hbase hs) (ih hbase.dropLast hfile)
  | directory hs hdirectory _ ih =>
    exact .directory (hsearch hbase hs) (h.directory hdirectory) (ih hdirectory hfile)
  | file _ _ => exact absurd rfl (hfile _)
  | link hs hat => exact .link (hsearch hbase hs) (h.link hat)

theorem follows (h : Extends disk disk') (hdisk : disk.WellFormed) (hbase : IsDirectory disk base)
    (hf : Follows disk links base path (.directory place)) :
    Follows disk' links base path (.directory place) := by
  generalize hfound : Found.directory place = found at hf ⊢
  induction hf with
  | reached hd =>
    subst hfound
    exact .reached (h.descends hbase (by simp) hd)
  | link hd _ ih =>
    refine .link (h.descends hbase (by simp) hd) (ih ?_ hfound)
    split
    · exact hdisk.isDirectory_root
    · exact (isDirectory_of_descend hbase).2 _ _ _ (hd.descend_eq hdisk.named)

/-- A directory is found on the disk that holds more. -/
theorem directory? (h : Extends disk disk') (hdisk : disk.WellFormed) (hnamed' : disk'.tree.Named)
    {p : Path} (hplace : disk.directory? p = some place) : disk'.directory? p = some place := by
  rw [directory?_eq_some] at hplace ⊢
  have hfollow := h.follows hdisk hdisk.isDirectory_root (follows_of_lookup hplace rfl)
  unfold Disk.lookup at hplace ⊢
  split
  · rename_i hnull
    rwa [if_pos hnull] at hplace
  · rename_i hnull
    rw [if_neg hnull] at hplace
    split
    · rename_i hsize
      rwa [if_pos hsize] at hplace
    · exact hfollow.follow_eq hnamed'

end Extends

end RepoSurvey.Disk
