import RepoSurvey.Proofs.Disk.Correspondence
import RepoSurvey.Proofs.Disk.Descent

/-!
# Trees with something put in

What is put at the end of a path stands there; everything beside the path stays as it was.

* `FileTree.at?_put_append`, `FileTree.at?_put_beside`, `FileTree.exists_directory_put`: what
  stands behind the path, beside it and on it;
* `Disk.WellFormed.write`: names stay different;
* `Disk.corresponds_write`: a file with other bytes;
* `Disk.appendTo`: bytes written behind those of a file, with `Disk.bytes?_appendTo`;
* `Disk.isDirectory_write_iff`, `Disk.extends_write`, `Disk.lists_write`: a new file in a directory.
-/

namespace RepoSurvey

namespace FileTree

variable {t new : FileTree} {name : String} {entries : List (String × FileTree)}

theorem find?_insertEntry (name : String) (t : FileTree) (entries : List (String × FileTree))
    (other : String) : find? other (insertEntry name t entries)
      = if name = other then some t else find? other entries := by
  induction entries with
  | nil => rfl
  | cons e rest ih =>
    obtain ⟨n, u⟩ := e
    rw [insertEntry]
    split
    · rename_i hn
      subst hn
      rw [find?, find?]
      split <;> rfl
    · rename_i hne
      rw [find?, find?, ih]
      by_cases hname : name = other
      · rw [if_pos hname, if_pos hname, if_neg fun hn => hne (hname.trans hn.symm)]
      · rw [if_neg hname, if_neg hname]

theorem mem_insertEntry {e : String × FileTree} (h : e ∈ insertEntry name t entries) :
    e = (name, t) ∨ e ∈ entries := by
  induction entries with
  | nil => exact Or.inl (List.mem_singleton.mp h)
  | cons first rest ih =>
    obtain ⟨n, u⟩ := first
    rw [insertEntry] at h
    split at h
    · rename_i hn
      rw [← hn] at h
      exact (List.mem_cons.mp h).imp_right (List.mem_cons_of_mem _)
    · rcases List.mem_cons.mp h with rfl | h
      · exact Or.inr List.mem_cons_self
      · exact (ih h).imp_right (List.mem_cons_of_mem _)

theorem nodup_insertEntry (h : (entries.map (·.1)).Nodup) (name : String) (t : FileTree) :
    ((insertEntry name t entries).map (·.1)).Nodup := by
  induction entries with
  | nil => exact List.nodup_singleton name
  | cons first rest ih =>
    obtain ⟨n, u⟩ := first
    obtain ⟨hfirst, hrest⟩ := List.nodup_cons.mp h
    rw [insertEntry]
    split
    · exact h
    · rename_i hne
      refine List.nodup_cons.mpr ⟨fun hn => ?_, ih hrest⟩
      obtain ⟨e, he, heq⟩ := List.mem_map.mp hn
      rcases mem_insertEntry he with rfl | he
      · exact hne heq
      · exact hfirst (List.mem_map.mpr ⟨e, he, heq⟩)

/-! ## What stands where -/

/-- One name further, in the tree with something put behind that name. -/
theorem at?_put_cons (t new : FileTree) (name : String) (path : List String) (other : String)
    (q : List String) : (t.put new (name :: path)).at? (other :: q)
      = if name = other then (((find? name t.entries).getD (.directory [])).put new path).at? q
        else t.at? (other :: q) := by
  rw [at?, put, entries, find?_insertEntry]
  split <;> rfl

/-- Behind the path stands what was put there. -/
theorem at?_put_append (t new : FileTree) (path rest : List String) :
    (t.put new path).at? (path ++ rest) = new.at? rest := by
  induction path generalizing t with
  | nil => rfl
  | cons name path ih => rw [List.cons_append, at?_put_cons, if_pos rfl, ih]

/-- Beside the path everything stays. -/
theorem at?_put_beside {path q : List String} (h : ¬ path <+: q) (h' : ¬ q <+: path) :
    (t.put new path).at? q = t.at? q := by
  induction path generalizing t q with
  | nil => exact absurd List.nil_prefix h
  | cons name path ih =>
    cases q with
    | nil => exact absurd List.nil_prefix h'
    | cons other q =>
      rw [at?_put_cons]
      split
      · rename_i hname
        subst hname
        rw [List.cons_prefix_cons, and_iff_right rfl] at h h'
        rw [ih h h', at?]
        cases hfind : find? name t.entries with
        | some u => rfl
        | none =>
          cases q with
          | nil => exact absurd List.nil_prefix h'
          | cons _ _ => rfl
      · rfl

/-- On the path there are directories. -/
theorem exists_directory_put (t new : FileTree) (front : List String) (name : String)
    (rest : List String) :
    ∃ entries, (t.put new (front ++ name :: rest)).at? front = some (.directory entries) := by
  induction front generalizing t with
  | nil => exact ⟨_, rfl⟩
  | cons first front ih =>
    obtain ⟨entries, hat⟩ := ih ((find? first t.entries).getD (.directory []))
    refine ⟨entries, ?_⟩
    rw [List.cons_append, at?_put_cons, if_pos rfl, hat]

theorem Named.put (ht : t.Named) (hnew : new.Named) {path : List String}
    (hpath : ∀ s ∈ path, EntryName s) : (t.put new path).Named := by
  induction path generalizing t with
  | nil => exact hnew
  | cons name path ih =>
    obtain ⟨hname, hpath⟩ := List.forall_mem_cons.mp hpath
    have hold : ((find? name t.entries).getD (.directory [])).Named := by
      cases hfind : find? name t.entries with
      | none => exact .directory [] (by simp) (by simp)
      | some u => exact (ht.entries _ (mem_of_find? hfind)).2
    rw [FileTree.put]
    refine .directory _ (fun e he => ?_) fun e he => ?_
    · rcases mem_insertEntry he with rfl | he
      · exact hname
      · exact (ht.entries e he).1
    · rcases mem_insertEntry he with rfl | he
      · exact ih hold hpath
      · exact (ht.entries e he).2

theorem Distinct.put (ht : t.Distinct) (hnew : new.Distinct) (path : List String) :
    (t.put new path).Distinct := by
  induction path generalizing t with
  | nil => exact hnew
  | cons name path ih =>
    obtain ⟨hnames, hall⟩ := ht.entries
    have hold : ((find? name t.entries).getD (.directory [])).Distinct := by
      cases hfind : find? name t.entries with
      | none => exact .directory [] .nil (by simp)
      | some u => exact hall _ (mem_of_find? hfind)
    rw [FileTree.put]
    refine .directory _ (nodup_insertEntry hnames _ _) fun e he => ?_
    rcases mem_insertEntry he with rfl | he
    · exact ih hold
    · exact hall e he

end FileTree

namespace Disk

open FileTree

variable {disk : Disk} {place : List String} {bytes : List UInt8}

/-- A disk with a file written. -/
theorem WellFormed.write (h : disk.WellFormed) (hne : place ≠ [])
    (hplace : ∀ s ∈ place, EntryName s) (bytes : List UInt8) :
    WellFormed (disk.write place bytes) where
  root := by
    obtain ⟨name, rest, rfl⟩ := List.exists_cons_of_ne_nil hne
    rfl
  named := h.named.put (.file bytes) hplace
  distinct := h.distinct.put (.file bytes) place

theorem WellFormed.write_child (h : disk.WellFormed) (hplace : IsDirectory disk place)
    {name : String} (hname : EntryName name) (bytes : List UInt8) :
    WellFormed (disk.write (place ++ [name]) bytes) := by
  obtain ⟨entries, hat⟩ := hplace
  refine h.write (by simp) (fun s hs => ?_) bytes
  rcases List.mem_append.mp hs with hs | hs
  · exact entryName_of_at? h.named hat s hs
  · exact List.mem_singleton.mp hs ▸ hname

theorem rights_write_of_ne {q : List String} (h : q ≠ place) (bytes : List UInt8) :
    (disk.write place bytes).rights q = disk.rights q := by
  rw [Disk.write]
  exact if_neg h

/-! ## A file with other bytes -/

theorem WellFormed.ne_nil_of_file (h : disk.WellFormed)
    (hat : disk.tree.at? place = some (.file bytes)) : place ≠ [] := by
  rintro rfl
  obtain ⟨entries, hroot⟩ := h.isDirectory_root
  rw [hroot] at hat
  cases hat

/-- Other bytes in a file that may be read change nothing else. -/
theorem corresponds_write (hat : disk.tree.at? place = some (.file bytes))
    (hread : (disk.rights place).read = true) (bytes' : List UInt8) :
    Corresponds (fun _ _ => True) disk (disk.write place bytes') := by
  refine ⟨fun q => ?_, fun q => ?_, rfl⟩
  · rw [Disk.write]
    dsimp only
    by_cases hbehind : place <+: q
    · obtain ⟨rest, rfl⟩ := hbehind
      rw [at?_put_append, FileTree.at?_append, hat]
      cases rest with
      | nil => exact .some (.file trivial)
      | cons name rest => exact .none
    by_cases hon : q <+: place
    · obtain ⟨rest, rfl⟩ := hon
      cases rest with
      | nil => exact absurd (by simp) hbehind
      | cons name rest =>
        obtain ⟨entries, hold⟩ := isDirectory_of_at?_below hat
        obtain ⟨entries', hnew⟩ := exists_directory_put disk.tree (.file bytes') q name rest
        rw [hold, hnew]
        exact .some (.directory entries entries')
    · rw [at?_put_beside hbehind hon]
      cases disk.tree.at? q with
      | none => exact .none
      | some t =>
        cases t with
        | file bytes => exact .some (.file trivial)
        | link target => exact .some (.link target)
        | directory entries => exact .some (.directory entries entries)
  · by_cases hq : q = place
    · rw [Disk.write, hq]
      simp [← hread]
    · rw [rights_write_of_ne hq]

/-- The disk with bytes written behind those of the file that a path leads to, if it may be read. -/
def appendTo (disk : Disk) (path : Path) (more : List UInt8) : Disk :=
  match disk.bytes? path, disk.filePlace? path with
  | some bytes, some place => disk.write place (bytes ++ more)
  | _, _ => disk

section Append

variable {path : Path}

variable (hdisk : disk.WellFormed) (hbytes : disk.bytes? path = some bytes) (more : List UInt8)

include hdisk hbytes

/-- The file that is written to. -/
theorem exists_written : ∃ place, disk.filePlace? path = some place
    ∧ disk.tree.at? place = some (.file bytes) ∧ (disk.rights place).read = true
    ∧ disk.appendTo path more = disk.write place (bytes ++ more) := by
  obtain ⟨place, raw, hplace, hat, hcontents⟩ :=
    at?_filePlace hdisk.named (bytes?_eq_some.mp hbytes)
  rw [contents?] at hcontents
  split at hcontents
  · rename_i hread
    cases hcontents
    exact ⟨place, hplace, hat, hread, by rw [appendTo, hbytes, hplace]⟩
  · cases hcontents

theorem corresponds_appendTo : Corresponds (fun _ _ => True) disk (disk.appendTo path more) := by
  obtain ⟨place, _, hat, hread, hwritten⟩ := exists_written hdisk hbytes more
  rw [hwritten]
  exact corresponds_write hat hread _

theorem WellFormed.appendTo : (disk.appendTo path more).WellFormed := by
  obtain ⟨place, _, hat, _, hwritten⟩ := exists_written hdisk hbytes more
  rw [hwritten]
  exact hdisk.write (hdisk.ne_nil_of_file hat) (entryName_of_at? hdisk.named hat) _

/-- The path leads to the bytes with more behind them. -/
theorem bytes?_appendTo : (disk.appendTo path more).bytes? path = some (bytes ++ more) := by
  have hcorresponds := corresponds_appendTo hdisk hbytes more
  have hkind := hcorresponds.bytes? path
  rw [hbytes] at hkind
  generalize hfound : (disk.appendTo path more).bytes? path = found at hkind ⊢
  cases hkind with
  | @some _ bytes' =>
    -- the file stands at the same place on both disks
    obtain ⟨place, hplace, _, _, hwritten⟩ := exists_written hdisk hbytes more
    obtain ⟨place', hplace', hat', _, _⟩ :=
      exists_written (WellFormed.appendTo hdisk hbytes more) hfound []
    rw [← hcorresponds.filePlace?_eq, hplace] at hplace'
    cases hplace'
    have hput := at?_put_append disk.tree (.file (bytes ++ more)) place []
    rw [List.append_nil] at hput
    rw [hwritten, Disk.write] at hat'
    rw [hat'] at hput
    cases hput
    rfl

end Append

/-! ## A new file -/

section New

theorem ne_written_of_isDirectory {name : String}
    (hnone : disk.tree.at? (place ++ [name]) = none) {q : List String} (hq : IsDirectory disk q) :
    q ≠ place ++ [name] := by
  rintro rfl
  obtain ⟨entries, hat⟩ := hq
  rw [hnone] at hat
  cases hat

variable {name : String} (hplace : IsDirectory disk place)
  (hnone : disk.tree.at? (place ++ [name]) = none) (bytes : List UInt8)

include hplace hnone

/-- Beside a new file everything stays, below it there was nothing, and above it there are
directories. -/
theorem at?_write_cases (q : List String) :
    (IsDirectory disk q ∧ IsDirectory (disk.write (place ++ [name]) bytes) q)
      ∨ (disk.tree.at? q = none ∧ ∃ rest, q = place ++ [name] ++ rest)
      ∨ (disk.write (place ++ [name]) bytes).tree.at? q = disk.tree.at? q := by
  by_cases hbehind : place ++ [name] <+: q
  · obtain ⟨rest, rfl⟩ := hbehind
    refine Or.inr (Or.inl ⟨?_, rest, rfl⟩)
    rw [FileTree.at?_append, hnone]
    rfl
  by_cases hon : q <+: place ++ [name]
  · rcases List.prefix_concat_iff.mp hon with rfl | ⟨rest, rfl⟩
    · exact absurd (List.prefix_refl _) hbehind
    · refine Or.inl ⟨hplace.of_append, ?_⟩
      obtain ⟨next, more, hmore⟩ := List.exists_cons_of_ne_nil
        (List.append_ne_nil_of_right_ne_nil rest (List.cons_ne_nil name []))
      rw [List.append_assoc, hmore]
      exact exists_directory_put disk.tree (.file bytes) q next more
  · exact Or.inr (Or.inr (at?_put_beside hbehind hon))

/-- The directories are the same. -/
theorem isDirectory_write_iff {q : List String} :
    IsDirectory (disk.write (place ++ [name]) bytes) q ↔ IsDirectory disk q := by
  constructor
  · rintro ⟨entries, hat⟩
    rcases at?_write_cases hplace hnone bytes q with ⟨h, _⟩ | ⟨_, rest, rfl⟩ | h
    · exact h
    · rw [Disk.write] at hat
      dsimp only at hat
      rw [at?_put_append] at hat
      cases rest with
      | nil => cases hat
      | cons _ _ => cases hat
    · exact ⟨entries, h.symm.trans hat⟩
  · rintro ⟨entries, hat⟩
    rcases at?_write_cases hplace hnone bytes q with ⟨_, h⟩ | ⟨h, _⟩ | h
    · exact h
    · rw [h] at hat
      cases hat
    · exact ⟨entries, h.trans hat⟩

/-- The links are the same. -/
theorem at?_link_write_iff {q : List String} {target : String} :
    (disk.write (place ++ [name]) bytes).tree.at? q = some (.link target)
      ↔ disk.tree.at? q = some (.link target) := by
  rcases at?_write_cases hplace hnone bytes q with ⟨⟨_, h⟩, ⟨_, h'⟩⟩ | ⟨h, rest, rfl⟩ | h
  · rw [h, h']
    simp
  · rw [h, Disk.write]
    dsimp only
    rw [at?_put_append]
    cases rest with
    | nil => simp [FileTree.at?]
    | cons _ _ => simp [FileTree.at?, entries, find?]
  · rw [h]

/-- A new file in a directory leaves what was there, and is in nobody's way. -/
theorem extends_write : Extends disk (disk.write (place ++ [name]) bytes)
    ∧ Extends (disk.write (place ++ [name]) bytes) disk := by
  have hdirectory : ∀ {q}, IsDirectory (disk.write (place ++ [name]) bytes) q
      ↔ IsDirectory disk q := isDirectory_write_iff hplace hnone bytes
  have hlink : ∀ {q target}, (disk.write (place ++ [name]) bytes).tree.at? q = some (.link target)
      ↔ disk.tree.at? q = some (.link target) := at?_link_write_iff hplace hnone bytes
  have hrights : ∀ {q}, IsDirectory disk q →
      (disk.write (place ++ [name]) bytes).rights q = disk.rights q := fun hq =>
    rights_write_of_ne (ne_written_of_isDirectory hnone hq) bytes
  exact ⟨⟨hdirectory.mpr, hlink.mpr, hrights⟩,
    ⟨hdirectory.mp, hlink.mp, fun hq => (hrights (hdirectory.mp hq)).symm⟩⟩

variable (hdisk : disk.WellFormed) (hname : EntryName name)

include hdisk hname

theorem directory?_write (p : Path) :
    (disk.write (place ++ [name]) bytes).directory? p = disk.directory? p := by
  have hdisk' := hdisk.write_child hplace hname bytes
  obtain ⟨hextends, hextends'⟩ := extends_write hplace hnone bytes
  refine Option.ext fun found => ⟨fun h => ?_, fun h => ?_⟩
  · exact hextends'.directory? hdisk' hdisk.named h
  · exact hextends.directory? hdisk hdisk'.named h

/-- The same directories can be listed. -/
theorem lists_write (p : Path) :
    (disk.write (place ++ [name]) bytes).lists p = disk.lists p := by
  rw [lists, lists, directory?_write hplace hnone bytes hdisk hname]
  cases hfound : disk.directory? p with
  | none => rfl
  | some found =>
    have hdirectory := hdisk.isDirectory_of_lookup (directory?_eq_some.mp hfound)
    rw [Option.any_some, Option.any_some,
      rights_write_of_ne (ne_written_of_isDirectory hnone hdirectory)]

end New

end Disk

end RepoSurvey
