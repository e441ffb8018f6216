import RepoSurvey.Disk.Ignore
import RepoSurvey.Proofs.Disk.Agreement
import RepoSurvey.Proofs.Traversal

/-!
# A part of a tree on its own

A directory that a walk enters can be walked by itself. Unless directories are passed over by their
paths, it makes no difference where the walk starts.

* `Disk.lookup_place`: a directory by its own path;
* `Skip.eq_of_load`: what is passed over where there is no ignore file;
* `Walk.Slashless`, `Walk.pruned_append_iff`: names alone are passed over anywhere;
* `WalkEntry.movedInto`, `WalkEntry.isBelow`: paths from further up;
* `Walk.listed_movedInto_iff`, `Walk.map_movedInto_entries`: the walk of a part is that of the
  whole, as far as it is below the part.
-/

namespace RepoSurvey

/-- A directory is found by its own path, unless this is too long or leads through a directory that
may not be searched. -/
theorem Disk.lookup_place {disk : Disk} (hdisk : disk.WellFormed) {place : List String}
    (hplace : disk.IsDirectory place) :
    disk.Reaches place ∨ disk.lookup ⟨true, place⟩ = .nameTooLong
      ∨ disk.lookup ⟨true, place⟩ = .denied := by
  obtain ⟨entries, hat⟩ := hplace
  have hnull : ¬ (Path.mk true place).hasNull = true := by
    rw [Path.hasNull]
    simpa using fun s hs => (entryName_of_at? hdisk.named hat s hs).nul_free
  unfold Reaches lookup
  rw [if_neg hnull]
  split
  · exact Or.inr (Or.inl rfl)
  · rw [follow_eq]
    rcases descend_isDirectory hdisk.named [] place ⟨entries, hat⟩ with hreached | hdenied
    · rw [hreached]
      exact Or.inl rfl
    · have hend := hdenied []
      rw [List.append_nil] at hend
      rw [hend]
      exact Or.inr (Or.inr rfl)

/-- Without an ignore file only the config says what is passed over. -/
theorem Skip.eq_of_load {disk : Disk} (hdisk : disk.WellFormed) {place : List String}
    (hplace : disk.IsDirectory place) (hnone : disk.tree.at? (place ++ [ignoreFile]) = none)
    {extra skip : NameSet} (h : load disk ⟨true, place⟩ extra = .ok skip) :
    skip = NameSet.union extra [] := by
  obtain ⟨found, hfound, hskip⟩ := bind_eq_ok_iff.mp h
  cases hskip
  obtain ⟨isFile, hisFile, hfound⟩ := bind_eq_ok_iff.mp hfound
  cases isFile with
  | false =>
    cases hfound
    rfl
  | true =>
    obtain ⟨entries, hat⟩ := hplace
    have hfile : (disk.lookup ⟨true, place ++ [ignoreFile]⟩).isFile = true :=
      Disk.Found.isFile_iff.mpr (Disk.isFile_eq_true.mp hisFile)
    have hnothing : ∀ t, (ignoreFile, t) ∉ entries := fun t ht => by
      rw [Walk.stands_of_mem hdisk hat ht] at hnone
      cases hnone
    rcases Disk.exists_entry_of_lookup hdisk hat (by decide +kernel) hfile with
      ⟨_, hmem⟩ | ⟨_, hmem⟩
    · exact absurd hmem (hnothing _)
    · exact absurd hmem (hnothing _)

/-- The same thing, by its path from further up. -/
def WalkEntry.movedInto (sub : List String) (e : WalkEntry) : WalkEntry :=
  ⟨sub ++ e.path, e.isDirectory⟩

/-- Something strictly below a directory. -/
def WalkEntry.isBelow (sub : List String) (e : WalkEntry) : Bool :=
  sub.isPrefixOf e.path && e.path != sub

theorem WalkEntry.isBelow_iff {sub : List String} {e : WalkEntry} :
    e.isBelow sub = true ↔ ∃ rest, rest ≠ [] ∧ e.path = sub ++ rest := by
  simp only [isBelow, Bool.and_eq_true, List.isPrefixOf_iff_prefix, bne_iff_ne, ne_eq]
  constructor
  · rintro ⟨⟨rest, hrest⟩, hne⟩
    refine ⟨rest, ?_, hrest.symm⟩
    rintro rfl
    exact hne (by rw [← hrest, List.append_nil])
  · rintro ⟨rest, hne, hpath⟩
    refine ⟨⟨rest, hpath.symm⟩, fun heq => hne ?_⟩
    rw [hpath] at heq
    simpa using heq

namespace Walk

variable {disk : Disk} {skip : NameSet} {place sub : List String}

/-- No directory is passed over by its path. -/
def Slashless (skip : NameSet) : Prop := ∀ name ∈ skip, '/' ∉ name.toList

instance (skip : NameSet) : Decidable (Slashless skip) :=
  inferInstanceAs (Decidable (∀ name ∈ skip, '/' ∉ name.toList))

/-- The path of something in a directory has a slash. -/
theorem slash_mem_joined {front : List String} (hfront : front ≠ []) (name : String) :
    '/' ∈ (Path.joined (front ++ [name])).toList := by
  rw [Path.joined, String.intercalate_append_of_ne_nil hfront (by simp)]
  simp

theorem pruned_iff (hskip : Slashless skip) {path : List String} : Pruned skip path
    ↔ ∃ front name, path = front ++ [name] ∧ (name ∈ Skip.always ∨ name ∈ skip) := by
  constructor
  · rintro ⟨front, name, rfl, h | h | h⟩
    · exact ⟨front, name, rfl, Or.inl h⟩
    · exact ⟨front, name, rfl, Or.inr h⟩
    · cases front with
      | nil =>
        have hname : Path.joined ([] ++ [name]) = name := String.intercalate_singleton
        exact ⟨[], name, rfl, Or.inr (hname ▸ h)⟩
      | cons s front => exact absurd (slash_mem_joined (by simp) name) (hskip _ h)
  · rintro ⟨front, name, rfl, h | h⟩
    · exact ⟨front, name, rfl, Or.inl h⟩
    · exact ⟨front, name, rfl, Or.inr (Or.inl h)⟩

/-- Where names alone are passed over, it does not matter what a path starts with. -/
theorem pruned_append_iff (hskip : Slashless skip) (front : List String) {path : List String}
    (hpath : path ≠ []) : Pruned skip (front ++ path) ↔ Pruned skip path := by
  rw [pruned_iff hskip, pruned_iff hskip]
  obtain ⟨init, last, rfl⟩ := (List.eq_nil_or_concat' path).resolve_left hpath
  rw [← List.append_assoc]
  constructor
  · rintro ⟨_, name, heq, h⟩
    obtain ⟨_, hlast⟩ := List.append_inj' heq rfl
    exact ⟨init, name, by rw [hlast], h⟩
  · rintro ⟨_, name, heq, h⟩
    obtain ⟨_, hlast⟩ := List.append_inj' heq rfl
    exact ⟨front ++ init, name, by rw [hlast], h⟩

/-- What is to be listed below a directory that is entered is to be listed from further up. -/
theorem listed_movedInto_iff (hskip : Slashless skip)
    (hsub : Entered disk skip ⟨true, place⟩ place sub) {e : WalkEntry} (he : e.path ≠ []) :
    Listed disk skip ⟨true, place⟩ place (e.movedInto sub)
      ↔ Listed disk skip ⟨true, place ++ sub⟩ (place ++ sub) e := by
  have hspared : ∀ q, q <+: e.path → (¬ Pruned skip (sub ++ q) ↔ ¬ Pruned skip q) := by
    intro q _
    by_cases hq : q = []
    · rw [hq, List.append_nil]
      exact ⟨fun _ => not_pruned_nil skip, fun _ => hsub.spared sub (List.prefix_refl sub)⟩
    · exact (pruned_append_iff hskip sub hq).not
  have hplace : ∀ q, Path.below ⟨true, place ++ sub⟩ q = Path.below ⟨true, place⟩ (sub ++ q) := by
    intro q
    rw [Path.below, Path.below, List.append_assoc]
  constructor
  · intro h
    have hlonger : ∀ q, q <+: e.path → q ≠ e.path →
        sub ++ q <+: (e.movedInto sub).path ∧ sub ++ q ≠ (e.movedInto sub).path := fun q hq hne =>
      ⟨(List.prefix_append_right_inj sub).mpr hq, fun heq => hne (List.append_cancel_left heq)⟩
    refine ⟨he, ?_, fun q hq hne => ?_, fun q hq hne => ?_, fun hdirectory => ?_⟩
    · rw [hplace, List.append_assoc]
      exact h.stands
    · rw [hplace]
      exact h.open_ _ (hlonger q hq hne).1 (hlonger q hq hne).2
    · exact (hspared q hq).mp (h.above _ (hlonger q hq hne).1 (hlonger q hq hne).2)
    · exact (hspared e.path (List.prefix_refl _)).mp (h.self hdirectory)
  · intro h
    refine ⟨by simp [WalkEntry.movedInto, he], ?_, fun q hq hne => ?_, fun q hq hne => ?_,
      fun hdirectory => ?_⟩
    · have hstands := h.stands
      rw [hplace, List.append_assoc] at hstands
      exact hstands
    · by_cases hshort : q <+: sub ∧ q ≠ sub
      · exact hsub.open_ q hshort.1 hshort.2
      · obtain ⟨r, rfl⟩ : ∃ r, q = sub ++ r := by
          rcases List.prefix_or_prefix_of_prefix hq (List.prefix_append sub e.path) with
            hq' | ⟨r, rfl⟩
          · exact ⟨[], by rw [List.append_nil]; exact not_not.mp fun h => hshort ⟨hq', h⟩⟩
          · exact ⟨r, rfl⟩
        rw [← hplace]
        exact h.open_ r ((List.prefix_append_right_inj sub).mp hq) fun heq => hne (by rw [heq]; rfl)
    · rcases List.prefix_or_prefix_of_prefix hq (List.prefix_append sub e.path) with hq' | ⟨r, rfl⟩
      · exact hsub.spared q hq'
      · have hr : r <+: e.path := (List.prefix_append_right_inj sub).mp hq
        exact (hspared r hr).mpr (h.above r hr fun heq => hne (by rw [heq]; rfl))
    · exact (hspared e.path (List.prefix_refl _)).mpr (h.self hdirectory)

/-- The walk of a directory that is entered, by paths from further up, is what the walk from there
visits below it, in the same order. -/
theorem map_movedInto_entries (hdisk : disk.WellFormed) (hskip : Slashless skip)
    (hsub : Entered disk skip ⟨true, place⟩ place sub)
    (hroot : disk.directory? ⟨true, place⟩ = some place)
    (hroot' : disk.directory? ⟨true, place ++ sub⟩ = some (place ++ sub)) :
    (entries disk ⟨true, place ++ sub⟩ skip).map (WalkEntry.movedInto sub)
      = (entries disk ⟨true, place⟩ skip).filter (WalkEntry.isBelow sub) := by
  have hascending : ∀ p, (entries disk ⟨true, p⟩ skip).Pairwise (fun a b => a.path < b.path) :=
    fun p => List.pairwise_map.mp (ascending_entries hdisk.distinct ⟨true, p⟩ skip)
  have hmoved : ((entries disk ⟨true, place ++ sub⟩ skip).map (WalkEntry.movedInto sub)).Pairwise
      (fun a b => a.path < b.path) :=
    List.pairwise_map.mpr ((hascending (place ++ sub)).imp fun hlt => List.append_left_lt hlt)
  refine eq_of_ascending hmoved ((hascending place).filter _) fun e => ?_
  rw [List.mem_map, List.mem_filter, mem_entries_iff_listed hdisk hroot]
  constructor
  · rintro ⟨d, hd, rfl⟩
    have hlisted := (mem_entries_iff_listed hdisk hroot' skip d).mp hd
    exact ⟨(listed_movedInto_iff hskip hsub hlisted.nonempty).mpr hlisted,
      WalkEntry.isBelow_iff.mpr ⟨d.path, hlisted.nonempty, rfl⟩⟩
  · rintro ⟨hlisted, hbelow⟩
    obtain ⟨rest, hrest, hpath⟩ := WalkEntry.isBelow_iff.mp hbelow
    have hsame : WalkEntry.movedInto sub ⟨rest, e.isDirectory⟩ = e := by
      rw [WalkEntry.movedInto, ← hpath]
    rw [← hsame] at hlisted
    exact ⟨_, (mem_entries_iff_listed hdisk hroot' skip _).mpr
      ((listed_movedInto_iff hskip hsub hrest).mp hlisted), hsame⟩

end Walk

end RepoSurvey
