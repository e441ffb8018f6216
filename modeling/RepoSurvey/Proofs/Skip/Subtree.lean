import RepoSurvey.Disk.Ignore
import RepoSurvey.Proofs.Disk.Put
import RepoSurvey.Proofs.Skip.Lines

/-!
# Ignoring one directory more

A line with the path of a directory, written behind the other lines of an ignore file, takes what
is below the directory out of the walk, and nothing else: a path with a slash in it is not the name
of anything.

* `Path.trimChar_joined`: slashes around a path are taken away;
* `Walk.pruned_insert_iff`, `Walk.listed_insert_iff`: one path more that is passed over;
* `Walk.entries_insert`: the walk without what is below that path;
* `Skip.ignoring`: one line more in an ignore file, with `Skip.mem_ofIgnoreText_ignoring`;
* `Skip.entries_ignoring`: the walk after the line is written.
-/

namespace RepoSurvey

/-! ## Paths between slashes -/

namespace Path

variable {segments : List String}

theorem exists_joined_cons (s : String) (rest : List String) :
    ∃ more, (joined (s :: rest)).toList = s.toList ++ more := by
  cases rest with
  | nil => exact ⟨[], by simp [joined]⟩
  | cons next rest =>
    refine ⟨"/".toList ++ (joined (next :: rest)).toList, ?_⟩
    have hcut : joined ([s] ++ next :: rest) = joined [s] ++ "/" ++ joined (next :: rest) :=
      String.intercalate_append_of_ne_nil (by simp) (by simp)
    have hfirst : joined [s] = s := String.intercalate_singleton
    rw [← List.singleton_append, hcut, hfirst, String.toList_append, String.toList_append,
      List.append_assoc]

theorem exists_joined_concat (front : List String) (s : String) :
    ∃ more, (joined (front ++ [s])).toList = more ++ s.toList := by
  have hlast : joined [s] = s := String.intercalate_singleton
  by_cases hfront : front = []
  · exact ⟨[], by rw [hfront, List.nil_append, hlast, List.nil_append]⟩
  · have hcut : joined (front ++ [s]) = joined front ++ "/" ++ joined [s] :=
      String.intercalate_append_of_ne_nil hfront (by simp)
    exact ⟨(joined front ++ "/").toList, by rw [hcut, hlast, String.toList_append]⟩

/-- A path of proper names neither starts nor ends with a slash. -/
theorem slash_ends_joined (hne : segments ≠ []) (h : ∀ s ∈ segments, Name.Proper s) :
    (joined segments).toList ≠ [] ∧ (joined segments).toList.head? ≠ some '/'
      ∧ (joined segments).toList.getLast? ≠ some '/' := by
  have hnonempty : ∀ s ∈ segments, s.toList ≠ [] :=
    fun s hs hnil => (h s hs).ne_empty (String.toList_eq_nil_iff.mp hnil)
  obtain ⟨s, rest, hcons⟩ := List.exists_cons_of_ne_nil hne
  obtain ⟨front, t, hconcat⟩ := (List.eq_nil_or_concat' segments).resolve_left hne
  have hs : s ∈ segments := by simp [hcons]
  have ht : t ∈ segments := by simp [hconcat]
  obtain ⟨more, hmore⟩ := exists_joined_cons s rest
  obtain ⟨before, hbefore⟩ := exists_joined_concat front t
  rw [← hcons] at hmore
  rw [← hconcat] at hbefore
  refine ⟨by simp [hmore, hnonempty s hs], fun hhead => ?_, fun hlast => ?_⟩
  · rw [hmore, List.head?_append_of_ne_nil _ (hnonempty s hs)] at hhead
    exact (h s hs).slash_free (List.mem_of_head? hhead)
  · rw [hbefore, List.getLast?_append_of_ne_nil _ (hnonempty t ht)] at hlast
    exact (h t ht).slash_free (List.mem_of_getLast? hlast)

/-- Slashes around a path are taken away. -/
theorem trimChar_joined (hne : segments ≠ []) (h : ∀ s ∈ segments, Name.Proper s)
    (front back : Nat) :
    Text.trimChar '/' (List.replicate front '/' ++ (joined segments).toList
      ++ List.replicate back '/') = (joined segments).toList := by
  obtain ⟨hnonempty, hhead, hlast⟩ := slash_ends_joined hne h
  exact Text.trimChar_replicate hnonempty hhead hlast front back

end Path

/-! ## One path more that is passed over -/

namespace Walk

variable {disk : Disk} {skip skip' : NameSet} {place d : List String}
  (hskip : ∀ name, name ∈ skip' ↔ name ∈ skip ∨ name = Path.joined d)
  (hslash : '/' ∈ (Path.joined d).toList)

include hskip hslash

/-- A path with a slash in it is passed over as a path alone. -/
theorem pruned_insert_iff (hd : ∀ s ∈ d, '/' ∉ s.toList) {q : List String}
    (hq : ∀ s ∈ q, '/' ∉ s.toList) : Pruned skip' q ↔ Pruned skip q ∨ q = d := by
  have hne : d ≠ [] := by
    rintro rfl
    exact absurd hslash (by decide)
  constructor
  · rintro ⟨front, name, rfl, h | h | h⟩
    · exact Or.inl ⟨front, name, rfl, Or.inl h⟩
    · rcases (hskip name).mp h with h | rfl
      · exact Or.inl ⟨front, name, rfl, Or.inr (Or.inl h)⟩
      · exact absurd hslash (hq _ (by simp))
    · rcases (hskip _).mp h with h | h
      · exact Or.inl ⟨front, name, rfl, Or.inr (Or.inr h)⟩
      · refine Or.inr ?_
        rw [← splitSlashes_joined (by simp) hq, h, splitSlashes_joined hne hd]
  · rintro (⟨front, name, rfl, h⟩ | rfl)
    · refine ⟨front, name, rfl, ?_⟩
      rw [hskip, hskip]
      exact h.imp_right fun h => h.imp Or.inl Or.inl
    · obtain ⟨front, name, rfl⟩ := (List.eq_nil_or_concat' q).resolve_left hne
      exact ⟨front, name, rfl, Or.inr (Or.inr ((hskip _).mpr (Or.inr rfl)))⟩

/-- What is below a directory that is passed over too is no longer listed, and the directory
neither. -/
theorem listed_insert_iff (hdisk : disk.WellFormed) {root : Path}
    (hd : Listed disk skip root place ⟨d, true⟩) {e : WalkEntry} :
    Listed disk skip' root place e ↔ Listed disk skip root place e ∧ ¬ d <+: e.path := by
  have hpruned : ∀ {q : List String},
      Stands disk (place ++ e.path) (root.below e.path) e.isDirectory → q <+: e.path →
      (Pruned skip' q ↔ Pruned skip q ∨ q = d) := fun hstands hq =>
    pruned_insert_iff hskip hslash (fun s hs => (hd.stands.entryName hdisk.named s hs).slash_free)
      fun s hs => (hstands.entryName hdisk.named s (hq.subset hs)).slash_free
  constructor
  · intro h
    have hspared : ∀ q, q <+: e.path → ¬ Pruned skip' q → ¬ Pruned skip q := fun q hq hnot hold =>
      hnot ((hpruned h.stands hq).mpr (Or.inl hold))
    refine ⟨⟨h.nonempty, h.stands, h.open_, fun q hq hne => hspared q hq (h.above q hq hne),
      fun hdirectory => hspared _ (List.prefix_refl _) (h.self hdirectory)⟩, fun hbelow => ?_⟩
    have hprunedSelf : Pruned skip' d := (hpruned h.stands hbelow).mpr (Or.inr rfl)
    by_cases hsame : d = e.path
    · have hstands := hd.stands
      rw [hsame] at hstands hprunedSelf
      exact h.self (h.stands.unique hstands) hprunedSelf
    · exact h.above d hbelow hsame hprunedSelf
  · rintro ⟨h, hbeside⟩
    refine ⟨h.nonempty, h.stands, h.open_, fun q hq hne hnew => ?_, fun hdirectory hnew => ?_⟩
    · rcases (hpruned h.stands hq).mp hnew with hold | rfl
      · exact h.above q hq hne hold
      · exact hbeside hq
    · rcases (hpruned h.stands (List.prefix_refl _)).mp hnew with hold | hsame
      · exact h.self hdirectory hold
      · exact hbeside (hsame ▸ List.prefix_refl _)

/-- The walk of a disk with other bytes in some files, with the directory passed over. -/
theorem entries_insert {R : List UInt8 → List UInt8 → Prop} {disk' : Disk} (hdisk : disk.WellFormed)
    (hdisk' : disk'.WellFormed) (h : disk.Corresponds R disk') {root : Path}
    (hd : ⟨d, true⟩ ∈ entries disk root skip) :
    entries disk' root skip' = (entries disk root skip).filter fun e => !d.isPrefixOf e.path := by
  obtain ⟨place, _, hroot, _⟩ := mem_entries_iff.mp hd
  have hroot' : disk'.directory? root = some place := by rw [← h.directory?_eq, hroot]
  have hdlisted := (mem_entries_iff_listed hdisk hroot skip _).mp hd
  have hfilter := filter_entries_eq hdisk hdisk' hroot hroot'
    (fun e => !d.isPrefixOf e.path) (fun _ => true) fun e => by
      rw [Bool.not_eq_true', ← Bool.not_eq_true, List.isPrefixOf_iff_prefix,
        ← listed_insert_iff hskip hslash hdisk hdlisted, and_iff_left rfl]
      exact ⟨h.listed, h.symm.listed⟩
  rw [hfilter, List.filter_true]

end Walk

/-! ## One line more -/

namespace Skip

variable {disk : Disk} {root : Path} {extra : NameSet} {text raw : List Char} {bytes : List UInt8}

theorem load_of_read (h : disk.readStrict? (root.child ignoreFile) = some text) (extra : NameSet) :
    load disk root extra = .ok (NameSet.union extra (ofIgnoreText text)) := by
  have hfile : disk.isFile (root.child ignoreFile) = .ok true := by
    obtain ⟨raw, hraw, _⟩ := Option.map_eq_some_iff.mp h
    obtain ⟨bytes, hbytes, _⟩ := Option.bind_eq_some_iff.mp hraw
    exact Disk.isFile_eq_true.mpr ⟨_, Disk.bytes?_eq_some.mp hbytes⟩
  rw [load, ofRepository, hfile, h]
  rfl

/-- The disk with one more line in the ignore file, which holds the path of a directory between
slashes. -/
def ignoring (disk : Disk) (root : Path) (d : List String) (front back : Nat) : Disk :=
  disk.appendTo (root.child ignoreFile) (Utf8.encode ('\n' ::
    (List.replicate front '/' ++ (Path.joined d).toList ++ List.replicate back '/')))

/-- The line passes over the directory, and over nothing else. -/
theorem mem_ofIgnoreText_ignoring {d : List String} (hne : d ≠ [])
    (hproper : ∀ s ∈ d, Name.Proper s) (hfits : FitsLine (Path.joined d).toList) (front back : Nat)
    {name : String} :
    name ∈ ofIgnoreText (Text.unixNewlines (raw ++ '\n' ::
        (List.replicate front '/' ++ (Path.joined d).toList ++ List.replicate back '/')))
      ↔ name ∈ ofIgnoreText (Text.unixNewlines raw) ∨ name = Path.joined d := by
  have hnonempty := (Path.slash_ends_joined hne hproper).1
  have htrim := Path.trimChar_joined hne hproper front back
  have hline := hfits.slashes hnonempty front back
  have hentry := hline.entry?_eq (by rwa [htrim])
  rw [htrim, String.ofList_toList] at hentry
  rw [mem_ofIgnoreText_append_line hline (by simp [hnonempty]), hentry, Option.some.injEq,
    @eq_comm _ name]

/-- Ignoring the path of a directory removes exactly what is there: where the ignore file can be
read, and a walk visits a directory whose path has a slash in it and fits a line, the walk after
this line is written visits what it visited before in the same order, but for the directory and
what is below it. -/
theorem entries_ignoring (hdisk : disk.WellFormed) (root : Path) (extra : NameSet)
    (hread : disk.readStrict? (root.child ignoreFile) = some text) :
    ∃ skip, load disk root extra = .ok skip ∧ ∀ d, ⟨d, true⟩ ∈ Walk.entries disk root skip →
      '/' ∈ (Path.joined d).toList → FitsLine (Path.joined d).toList → ∀ front back,
        ∃ skip', load (ignoring disk root d front back) root extra = .ok skip'
          ∧ Walk.entries (ignoring disk root d front back) root skip'
            = (Walk.entries disk root skip).filter fun e => !d.isPrefixOf e.path := by
  refine ⟨_, load_of_read hread extra, fun d hd hslash hfits front back => ?_⟩
  obtain ⟨raw, hraw, rfl⟩ := Option.map_eq_some_iff.mp hread
  obtain ⟨bytes, hbytes, hstrict⟩ := Option.bind_eq_some_iff.mp hraw
  obtain ⟨hne, hproper⟩ := Walk.proper_of_mem_entries hdisk.named hd
  generalize hline : '\n' ::
    (List.replicate front '/' ++ (Path.joined d).toList ++ List.replicate back '/') = line
  have hread' : (ignoring disk root d front back).readStrict? (root.child ignoreFile)
      = some (Text.unixNewlines (raw ++ line)) := by
    rw [ignoring, hline, Disk.readStrict?, Disk.bytes?_appendTo hdisk hbytes, Option.bind_some,
      ← hline, Utf8.strict_append_feed hstrict, Option.map_some]
  refine ⟨_, load_of_read hread' extra, ?_⟩
  refine Walk.entries_insert (fun name => ?_) hslash hdisk (hdisk.appendTo hbytes _)
    (Disk.corresponds_appendTo hdisk hbytes _) hd
  rw [NameSet.mem_union, NameSet.mem_union, ← hline,
    mem_ofIgnoreText_ignoring hne (fun s hs => (hproper s hs).toProper) hfits, or_assoc]

/-- A repository with an ignore file elsewhere, whose line ends in a carriage return, and with
directories of one name in two places. -/
def twofoldDisk : Disk where
  tree := .directory [("r", .directory [
    (".wheelscanignore", .link "lists/ignored"),
    ("a", .directory [("old", .directory [("deep", .directory []), ("x.ts", .file [])])]),
    ("b", .directory [("old", .directory [("y.ts", .file [])])]),
    ("drafts", .directory [("z.ts", .file [])]),
    ("lists", .directory [("ignored", .file (Utf8.encode "drafts\r".toList))])])]

/-- Only one of the two directories is no longer visited. -/
theorem entries_ignoring_twofold : twofoldDisk.WellFormed
    ∧ twofoldDisk.readStrict? (Path.child ⟨true, ["r"]⟩ ignoreFile) = some "drafts\n".toList
    ∧ ∃ skip skip', load twofoldDisk ⟨true, ["r"]⟩ [] = .ok skip
      ∧ ⟨["a", "old"], true⟩ ∈ Walk.entries twofoldDisk ⟨true, ["r"]⟩ skip
      ∧ FitsLine (Path.joined ["a", "old"]).toList
      ∧ load (ignoring twofoldDisk ⟨true, ["r"]⟩ ["a", "old"] 1 2) ⟨true, ["r"]⟩ [] = .ok skip'
      ∧ (Walk.entries (ignoring twofoldDisk ⟨true, ["r"]⟩ ["a", "old"] 1 2) ⟨true, ["r"]⟩
          skip').map (·.path)
        = [[".wheelscanignore"], ["a"], ["b"], ["b", "old"], ["b", "old", "y.ts"], ["lists"],
          ["lists", "ignored"]] := by
  have hdisk : twofoldDisk.WellFormed := by decide +kernel
  have hread : twofoldDisk.readStrict? (Path.child ⟨true, ["r"]⟩ ignoreFile)
      = some "drafts\n".toList := by decide +kernel
  have hfits : FitsLine (Path.joined ["a", "old"]).toList := by decide +kernel
  obtain ⟨skip, hskip, hall⟩ := entries_ignoring hdisk ⟨true, ["r"]⟩ [] hread
  have hnames : skip = ["drafts"] := by
    rw [load_of_read hread] at hskip
    cases hskip
    decide +kernel
  subst hnames
  have hd : ⟨["a", "old"], true⟩ ∈ Walk.entries twofoldDisk ⟨true, ["r"]⟩ ["drafts"] := by
    decide +kernel
  obtain ⟨skip', hskip', hentries⟩ := hall ["a", "old"] hd (by decide +kernel) hfits 1 2
  refine ⟨hdisk, hread, ["drafts"], skip', hskip, hd, hfits, hskip', ?_⟩
  rw [hentries]
  decide +kernel

end Skip

end RepoSurvey
