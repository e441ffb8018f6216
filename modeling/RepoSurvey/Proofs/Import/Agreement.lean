import RepoSurvey.Proofs.Disk.Agreement
import RepoSurvey.Proofs.Import.Graph

/-!
# Imports on disks that are seen alike

An import may be probed for inside a directory that is passed over. What is found there is not
among the files of the walk, and it is probed for only after everything that is.

* `Import.resolve_eq_some`: an import is resolved to a file that is seen on both disks, if on one;
* `Import.graph_eq`: the graph of files that are seen is the same.
-/

namespace RepoSurvey.Import

open Walk

variable {skip : NameSet} {place : List String} {disk disk' : Disk}

/-! ## Probing -/

theorem firstThat_congr {paths : List Path} (h : ∀ p ∈ paths, disk.isFile p = disk'.isFile p) :
    firstThat disk.isFile paths = firstThat disk'.isFile paths := by
  induction paths with
  | nil => rfl
  | cons p rest ih =>
    obtain ⟨hp, hrest⟩ := List.forall_mem_cons.mp h
    rw [firstThat, firstThat, hp, ih hrest]

theorem mem_of_firstThat {isFile : Path → Except SurveyError Bool} {paths : List Path} {p : Path}
    (h : firstThat isFile paths = .ok (some p)) : p ∈ paths := by
  induction paths with
  | nil => cases h
  | cons q rest ih =>
    obtain ⟨answer, _, h⟩ := bind_eq_ok_iff.mp h
    cases answer with
    | true =>
      cases h
      exact List.mem_cons_self
    | false => exact List.mem_cons_of_mem q (ih h)

/-- Of two lists probed in turn the second is probed if nothing is found in the first. -/
theorem firstThat_append_eq_some {isFile : Path → Except SurveyError Bool} {front rest : List Path}
    {p : Path} : firstThat isFile (front ++ rest) = .ok (some p)
      ↔ firstThat isFile front = .ok (some p)
        ∨ firstThat isFile front = .ok none ∧ firstThat isFile rest = .ok (some p) := by
  induction front with
  | nil => simp [firstThat]
  | cons q front ih =>
    rw [List.cons_append, firstThat, firstThat]
    cases isFile q with
    | error e => simp [bind, Except.bind]
    | ok answer =>
      cases answer with
      | true => simp [bind, Except.bind, pure, Except.pure]
      | false => exact ih

/-! ## Resolving -/

/-- If a target lies in a directory that is entered, what is probed for beside it is looked up
alike. -/
theorem beside_eq (h : SeenAlike skip place disk disk') {target : Path}
    (habsolute : target.absolute = true) {path : List String}
    (hpath : target.segments.dropLast = place ++ path)
    (hentered : Entered disk skip ⟨true, place⟩ place path) :
    firstThat disk.isFile (suffixes.map (withSuffix target))
      = firstThat disk'.isFile (suffixes.map (withSuffix target)) := by
  refine firstThat_congr fun q hq => ?_
  obtain ⟨suffix, _, rfl⟩ := List.mem_map.mp hq
  rw [withSuffix, habsolute, hpath]
  exact Disk.isFile_congr (h.lookup_eq hentered _)

/-- If a target is a directory that is entered, so is what is probed for beside it, be it beside
the start of the walk, and inside it. -/
theorem candidates_eq (h : SeenAlike skip place disk disk') {target : Path}
    (habsolute : target.absolute = true) {path : List String}
    (hpath : target.segments = place ++ path)
    (hentered : Entered disk skip ⟨true, place⟩ place path) :
    firstThat disk.isFile (candidates target) = firstThat disk'.isFile (candidates target) := by
  refine firstThat_congr fun q hq => ?_
  rcases List.mem_append.mp hq with hbeside | hinside
  · obtain ⟨suffix, _, rfl⟩ := List.mem_map.mp hbeside
    obtain rfl | ⟨front, name, rfl⟩ := List.eq_nil_or_concat' path
    · rw [List.append_nil] at hpath
      rw [withSuffix, habsolute, hpath]
      exact Disk.isFile_congr (h.lookup_eq_beside _)
    · rw [← List.append_assoc] at hpath
      rw [withSuffix, habsolute, hpath, List.dropLast_concat]
      exact Disk.isFile_congr (h.lookup_eq hentered.of_concat _)
  · obtain ⟨suffix, _, rfl⟩ := List.mem_map.mp hinside
    rw [Path.child, habsolute, hpath]
    exact Disk.isFile_congr (h.lookup_eq hentered _)

/-- What is found among the candidates and is seen is found on both disks: all that is probed for
before it is looked up alike. -/
theorem firstThat_candidates (h : SeenAlike skip place disk disk') {target p : Path}
    (hp : Seen disk skip place p)
    (hfound : firstThat disk.isFile (candidates target) = .ok (some p)) :
    firstThat disk'.isFile (candidates target) = .ok (some p) := by
  obtain ⟨path, name, rfl, hentered⟩ := hp
  rcases firstThat_append_eq_some.mp hfound with hbeside | ⟨_, hinside⟩
  · obtain ⟨suffix, _, heq⟩ := List.mem_map.mp (mem_of_firstThat hbeside)
    obtain ⟨habsolute, hsegments⟩ := Path.mk.inj heq
    obtain ⟨hpath, _⟩ := List.append_inj' hsegments rfl
    rw [beside_eq h habsolute hpath hentered] at hbeside
    exact firstThat_append_eq_some.mpr (Or.inl hbeside)
  · obtain ⟨suffix, _, heq⟩ := List.mem_map.mp (mem_of_firstThat hinside)
    obtain ⟨habsolute, hsegments⟩ := Path.mk.inj heq
    obtain ⟨hpath, _⟩ := List.append_inj' hsegments rfl
    rw [← candidates_eq h habsolute hpath hentered]
    exact hfound

/-- An import that is resolved to a file that is seen is resolved to it on both disks. -/
theorem resolve_eq_some (h : SeenAlike skip place disk disk') {importer p : Path}
    {literal : String} (hp : Seen disk skip place p)
    (hresolve : resolve disk importer literal = .ok (some p)) :
    resolve disk' importer literal = .ok (some p) := by
  unfold resolve at hresolve ⊢
  dsimp only at hresolve ⊢
  split at hresolve
  · rename_i hscript
    have hmem := List.mem_singleton.mp (mem_of_firstThat hresolve)
    rw [if_pos hscript, ← hresolve]
    refine (firstThat_congr fun q hq => ?_).symm
    rw [List.mem_singleton.mp hq, ← hmem]
    exact Disk.isFile_congr (hp.lookup_eq h)
  · rename_i hscript
    rw [if_neg hscript]
    split at hresolve
    · cases hresolve
    · rename_i hsegments
      rw [if_neg hsegments]
      exact firstThat_candidates h hp hresolve

/-! ## The graph -/

theorem ofFile_eq (h : SeenAlike skip place disk disk') {p : Path} (hp : Seen disk skip place p)
    (limit : Int) : ofFile disk p limit = ofFile disk' p limit := by
  rw [ofFile, ofFile, Disk.readLenient?, Disk.readLenient?, Disk.bytes?, Disk.bytes?,
    hp.lookup_eq h]

/-- The targets of a file that are among some files that are seen are the same. -/
theorem filter_targets_eq (h : SeenAlike skip place disk disk') {files : List Path}
    (hfiles : ∀ p ∈ files, Seen disk skip place p) {limit : Int} {p : Path} (hp : p ∈ files)
    {list list' : List Path} (hlist : targets disk limit p = .ok list)
    (hlist' : targets disk' limit p = .ok list') :
    list.filter files.contains = list'.filter files.contains := by
  obtain ⟨found, hfound, hlist⟩ := bind_eq_ok_iff.mp hlist
  obtain ⟨found', hfound', hlist'⟩ := bind_eq_ok_iff.mp hlist'
  cases hlist
  cases hlist'
  rw [← ofFile_eq h (hfiles p hp)] at hfound'
  have hknown : found.map (Option.filter files.contains)
      = found'.map (Option.filter files.contains) := by
    refine map_eq_map_of_mapM hfound hfound' fun literal _ y z hy hz => ?_
    ext q
    have hseen : q ∈ files → (y = some q ↔ z = some q) := by
      intro hq
      constructor
      · rintro rfl
        have hsame := resolve_eq_some h (hfiles q hq) hy
        rw [hz] at hsame
        exact Except.ok.inj hsame
      · rintro rfl
        have hsame := resolve_eq_some h.symm ((hfiles q hq).of_alike h) hz
        rw [hy] at hsame
        exact Except.ok.inj hsame
    simp only [Option.filter_eq_some_iff, List.contains_iff_mem]
    exact and_congr_left hseen
  have hfilter : ∀ l : List (Option Path), (l.filterMap id).filter files.contains
      = (l.map (Option.filter files.contains)).filterMap id := by
    intro l
    rw [List.filter_filterMap, List.filterMap_map]
    rfl
  rw [hfilter, hfilter, hknown]

/-- Only targets that are among the files make edges. -/
theorem edges_eq {files : List Path} {lists lists' : List (List Path)}
    (h : lists.map (List.filter files.contains) = lists'.map (List.filter files.contains)) :
    edges files lists = edges files lists' := by
  have hedges : ∀ l, edges files l = (files.zip (l.map (List.filter files.contains))).flatMap
      fun e => e.2.map fun target => (e.1, target) := by
    intro l
    rw [List.zip_map_right, List.flatMap_map]
    rfl
  rw [hedges, hedges, h]

/-- The graph of files that are seen is the same, if there is one on both disks. -/
theorem graph_eq (h : SeenAlike skip place disk disk') {files : List Path}
    (hfiles : ∀ p ∈ files, Seen disk skip place p) {limit : Int} {g g' : Digraph Path}
    (hg : graph disk files limit = .ok g) (hg' : graph disk' files limit = .ok g') : g = g' := by
  obtain ⟨lists, hlists, hg⟩ := bind_eq_ok_iff.mp hg
  obtain ⟨lists', hlists', hg'⟩ := bind_eq_ok_iff.mp hg'
  cases hg
  cases hg'
  have hsame := map_eq_map_of_mapM hlists hlists' fun p hp list list' hlist hlist' =>
    filter_targets_eq h hfiles hp hlist hlist'
  rw [edges_eq hsame]

end RepoSurvey.Import
