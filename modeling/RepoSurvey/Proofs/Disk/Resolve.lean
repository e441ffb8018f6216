import RepoSurvey.Disk.Resolve
import RepoSurvey.Proofs.Disk.Descent

/-!
# Paths without links

Once a path is resolved there are neither dots nor links on it. What it leads to stands right there,
and from there on a path of proper names is resolved by itself.

* `Disk.Clear`: a path without dots and links;
* `Disk.clear_resolveFrom`: that is what resolving ends at;
* `Disk.place_of_clear`: a directory that such a path leads to stands at its end;
* `Disk.resolve_of_destination`: the directory that a repository is, by its own path;
* `Disk.resolve_join`: a directory below a repository;
* `Disk.resolve_congr`: two disks with the same links.
-/

namespace RepoSurvey

theorem Path.exists_joined_append (front rest : List String) :
    ∃ more, joined (front ++ rest) = joined front ++ more := by
  by_cases hfront : front = []
  · have hstart : joined [] = "" := String.intercalate_nil
    exact ⟨joined rest, by rw [hfront, List.nil_append, hstart, String.empty_append]⟩
  by_cases hrest : rest = []
  · exact ⟨"", by rw [hrest, List.append_nil, String.append_empty]⟩
  · exact ⟨"/" ++ joined rest, by
      rw [joined, String.intercalate_append_of_ne_nil hfront hrest, String.append_assoc]
      rfl⟩

/-- A path that goes on has a longer text. -/
theorem Path.size_text_le (front rest : List String) :
    (Path.mk true front).text.utf8ByteSize ≤ (Path.mk true (front ++ rest)).text.utf8ByteSize := by
  obtain ⟨more, hmore⟩ := exists_joined_append front rest
  simp only [text, if_true, hmore, String.utf8ByteSize_append]
  omega

namespace Disk

/-! ## Where resolving ends -/

/-- A path from the root without dots, on which there are no links. -/
structure Clear (linkAt? : List String → Option String) (place : List String) : Prop where
  undotted : ∀ s ∈ place, s ≠ "." ∧ s ≠ ".."
  linkless : ∀ q, q ≠ [] → q <+: place → linkAt? q = none

section Resolving

variable {linkAt? : List String → Option String} {resolveLink : List String → String → Resolution}
  {place path rest found : List String} {name : String}

theorem clear_nil : Clear linkAt? [] :=
  ⟨by simp, fun _ hne hq => absurd (List.prefix_nil.mp hq) hne⟩

theorem Clear.dropLast (h : Clear linkAt? place) : Clear linkAt? place.dropLast :=
  ⟨fun s hs => h.undotted s (List.dropLast_subset place hs),
    fun q hne hq => h.linkless q hne (hq.trans (List.dropLast_prefix place))⟩

theorem Clear.concat (h : Clear linkAt? place) (hdot : name ≠ ".") (hdots : name ≠ "..")
    (hlink : linkAt? (place ++ [name]) = none) : Clear linkAt? (place ++ [name]) := by
  refine ⟨fun s hs => ?_, fun q hne hq => ?_⟩
  · rcases List.mem_append.mp hs with hs | hs
    · exact h.undotted s hs
    · rw [List.mem_singleton.mp hs]
      exact ⟨hdot, hdots⟩
  · rcases List.prefix_concat_iff.mp hq with rfl | hq
    · exact hlink
    · exact h.linkless q hne hq

theorem clear_goDown
    (hresolve : ∀ link target found, Clear linkAt? link.dropLast →
      resolveLink link target = .place found → Clear linkAt? found)
    (hplace : Clear linkAt? place)
    (h : goDown linkAt? resolveLink place path = .place found) : Clear linkAt? found := by
  induction path generalizing place with
  | nil =>
    cases h
    exact hplace
  | cons name rest ih =>
    rw [goDown] at h
    by_cases hdot : name = "."
    · rw [if_pos hdot] at h
      exact ih hplace h
    rw [if_neg hdot] at h
    by_cases hdots : name = ".."
    · rw [if_pos hdots] at h
      exact ih hplace.dropLast h
    rw [if_neg hdots] at h
    cases hlink : linkAt? (place ++ [name]) with
    | none =>
      rw [hlink] at h
      exact ih (hplace.concat hdot hdots hlink) h
    | some target =>
      rw [hlink] at h
      dsimp only at h
      cases hend : resolveLink (place ++ [name]) target with
      | loop path =>
        rw [hend] at h
        cases h
      | tooDeep =>
        rw [hend] at h
        cases h
      | place next =>
        rw [hend] at h
        refine ih (hresolve _ _ _ ?_ hend) h
        rwa [List.dropLast_concat]

/-- Links inside links leave nothing behind either. -/
theorem clear_resolveFrom {depth : Nat} {opened : List (List String)}
    (hplace : Clear linkAt? place)
    (h : resolveFrom linkAt? depth opened place path = .place found) : Clear linkAt? found := by
  induction depth generalizing opened place path found with
  | zero =>
    rw [resolveFrom] at h
    refine clear_goDown (fun link target found _ hend => ?_) hplace h
    dsimp only at hend
    split at hend <;> cases hend
  | succ depth ih =>
    rw [resolveFrom] at h
    refine clear_goDown (fun link target found hlink hend => ?_) hplace h
    dsimp only at hend
    split at hend
    · cases hend
    · refine ih ?_ hend
      split
      · exact clear_nil
      · exact hlink

/-- A path behind one that is resolved is resolved from there. -/
theorem goDown_append (h : goDown linkAt? resolveLink place path = .place found)
    (rest : List String) :
    goDown linkAt? resolveLink place (path ++ rest) = goDown linkAt? resolveLink found rest := by
  induction path generalizing place with
  | nil =>
    cases h
    rfl
  | cons name path ih =>
    rw [goDown] at h
    rw [List.cons_append, goDown]
    split
    · rw [if_pos ‹_›] at h
      exact ih h
    rw [if_neg ‹_›] at h
    split
    · rw [if_pos ‹_›] at h
      exact ih h
    rw [if_neg ‹_›] at h
    cases hlink : linkAt? (place ++ [name]) with
    | none =>
      rw [hlink] at h
      exact ih h
    | some target =>
      rw [hlink] at h
      dsimp only at h ⊢
      cases hend : resolveLink (place ++ [name]) target with
      | loop path =>
        rw [hend] at h
        cases h
      | tooDeep =>
        rw [hend] at h
        cases h
      | place next =>
        rw [hend] at h
        exact ih h

/-- Where there are neither dots nor links, a path is resolved to itself. -/
theorem goDown_of_linkless (hundotted : ∀ s ∈ path, s ≠ "." ∧ s ≠ "..")
    (hlinkless : ∀ q, q ≠ [] → q <+: path → linkAt? (place ++ q) = none) :
    goDown linkAt? resolveLink place path = .place (place ++ path) := by
  induction path generalizing place with
  | nil => rw [goDown, List.append_nil]
  | cons name rest ih =>
    obtain ⟨⟨hdot, hdots⟩, hrest⟩ := List.forall_mem_cons.mp hundotted
    have hfirst := hlinkless [name] (by simp) ⟨rest, rfl⟩
    have hsplit : ∀ q : List String, place ++ name :: q = place ++ [name] ++ q := by simp
    rw [goDown, if_neg hdot, if_neg hdots, hfirst, hsplit rest]
    refine ih hrest fun q _ hq => ?_
    rw [← hsplit]
    exact hlinkless _ (by simp) (List.cons_prefix_cons.mpr ⟨rfl, hq⟩)

end Resolving

/-! ## What stands there -/

variable {disk disk' : Disk} {path : Path} {place sub : List String}

/-- A directory that a clear path leads to stands at its end. -/
theorem place_of_clear (hnamed : disk.tree.Named) (hclear : Clear disk.linkAt? sub)
    (h : disk.lookup ⟨true, sub⟩ = .directory place) : place = sub := by
  have hsize : (Path.mk true sub).text.utf8ByteSize ≤ pathLimit := by
    unfold lookup at h
    split at h
    · cases h
    split at h
    · cases h
    · omega
  generalize hfound : Found.directory place = found at h
  cases follows_of_lookup h (hfound ▸ rfl) with
  | reached hend =>
    subst hfound
    exact hend.eq_append hclear.undotted
  | @link _ _ _ _ rest _ _ hend _ =>
    obtain ⟨front, hne, rfl, hfront⟩ := hend.exists_link
    have hnone := hclear.linkless front hne (List.prefix_append front rest)
    have hshort : ¬ (Path.mk true front).text.utf8ByteSize > pathLimit := by
      have hle := Path.size_text_le front rest
      omega
    rw [linkAt?, if_neg hshort, hfront.descend_eq hnamed] at hnone
    cases hnone

/-- What a path is resolved to is absolute and clear. -/
theorem clear_of_resolve {found : Path} (h : disk.resolve path = .ok found) :
    path.hasNull = false ∧ found.absolute = true ∧ Clear disk.linkAt? found.segments
      ∧ resolveFrom disk.linkAt? disk.stack.links [] [] path.segments = .place found.segments := by
  unfold resolve at h
  split at h
  · cases h
  · rename_i hnull
    split at h
    · rename_i place hplace
      cases h
      exact ⟨eq_false_of_ne_true hnull, rfl, clear_resolveFrom clear_nil hplace, hplace⟩
    · cases h
    · cases h

/-- A repository is found at the path that it is resolved to. -/
theorem resolve_of_destination (hdisk : disk.WellFormed)
    (h : disk.destination path = .ok (.directory place)) :
    disk.resolve path = .ok ⟨true, place⟩ ∧ disk.Reaches place := by
  unfold destination at h
  cases hresolve : disk.resolve path with
  | error e =>
    rw [hresolve] at h
    cases h
  | ok found =>
    rw [hresolve] at h
    obtain ⟨_, habsolute, hclear, _⟩ := clear_of_resolve hresolve
    obtain ⟨absolute, segments⟩ := found
    obtain rfl : absolute = true := habsolute
    have hlookup : disk.lookup ⟨true, segments⟩ = .directory place := Except.ok.inj h
    have hsame := place_of_clear hdisk.named hclear hlookup
    subst hsame
    exact ⟨rfl, hlookup⟩

theorem linkAt?_of_isDirectory (hnamed : disk.tree.Named) (h : IsDirectory disk place) :
    disk.linkAt? place = none := by
  rw [linkAt?]
  split
  · rfl
  · rcases descend_isDirectory hnamed [] place h with hreached | hdenied
    · rw [hreached]
    · have hend := hdenied []
      rw [List.append_nil] at hend
      rw [hend]

/-- A directory below a repository is resolved to its own path. -/
theorem resolve_join (hdisk : disk.WellFormed)
    (hplace : disk.destination path = .ok (.directory place))
    (hsub : IsDirectory disk (place ++ sub)) :
    disk.resolve (path.join (.relative sub)) = .ok ⟨true, place ++ sub⟩ := by
  obtain ⟨hfree, _, _, hfound⟩ := clear_of_resolve (resolve_of_destination hdisk hplace).1
  have hnames : ∀ s ∈ sub, FileTree.EntryName s := by
    obtain ⟨entries, hat⟩ := hsub
    exact fun s hs => entryName_of_at? hdisk.named hat s (List.mem_append_right place hs)
  have hjoin : path.join (.relative sub) = ⟨path.absolute, path.segments ++ sub⟩ := rfl
  have hnull : ¬ (path.join (.relative sub)).hasNull = true := by
    rw [hjoin, Path.hasNull, List.any_append, Bool.or_eq_true, not_or]
    refine ⟨by rw [← Path.hasNull, hfree]; exact Bool.false_ne_true, ?_⟩
    simpa using fun s hs => (hnames s hs).nul_free
  have hbelow : ∀ q, q <+: sub → disk.linkAt? (place ++ q) = none := by
    rintro q ⟨rest, rfl⟩
    rw [← List.append_assoc] at hsub
    exact linkAt?_of_isDirectory hdisk.named hsub.of_append
  have hend : resolveFrom disk.linkAt? disk.stack.links [] [] (path.segments ++ sub)
      = .place (place ++ sub) := by
    unfold resolveFrom at hfound ⊢
    rw [goDown_append hfound]
    exact goDown_of_linkless (fun s hs => ⟨(hnames s hs).ne_dot, (hnames s hs).ne_dots⟩)
      fun q _ hq => hbelow q hq
  rw [resolve, if_neg hnull, hjoin, hend]

/-- Where the same links stand, paths are resolved alike. -/
theorem resolve_congr (hlinks : disk.linkAt? = disk'.linkAt?) (hstack : disk.stack = disk'.stack)
    (path : Path) : disk.resolve path = disk'.resolve path := by
  rw [resolve, resolve, hlinks, hstack]

end Disk

end RepoSurvey
