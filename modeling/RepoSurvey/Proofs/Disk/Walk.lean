import RepoSurvey.Proofs.Disk.Lookup
import RepoSurvey.Proofs.Disk.Preorder

/-!
# What a walk visits

* `Walk.Visits`: something that a walk of a tree is to visit;
* `Walk.mem_ofTree_iff`: the walk visits exactly that;
* `Walk.mem_entries_iff`: the same of the walk below a path;
* `Walk.proper_of_mem_entries`: paths that are visited have proper names;
* `Walk.ascending_entries`, `Walk.nodup_entries`: paths are visited in ascending order, each once.
-/

namespace RepoSurvey.Walk

variable {disk : Disk} {root : Path} {skip : NameSet}

/-- A walk of a tree, which is at `path` from the start, is to visit something: a file, a link that
leads to a file, a directory that is not passed over, and, if it can be listed, what is to be
visited of the things in such a directory. -/
inductive Visits (disk : Disk) (root : Path) (skip : NameSet) :
    List String → FileTree → WalkEntry → Prop
  | file {path : List String} {bytes : List UInt8} :
      Visits disk root skip path (.file bytes) ⟨path, false⟩
  | link {path : List String} {target : String} :
      (disk.lookup (root.below path)).isFile = true →
      Visits disk root skip path (.link target) ⟨path, false⟩
  | directory {path : List String} {entries : List (String × FileTree)} :
      ¬ isPruned skip path → Visits disk root skip path (.directory entries) ⟨path, true⟩
  | inside {path : List String} {entries : List (String × FileTree)} {name : String}
      {t : FileTree} {e : WalkEntry} : ¬ isPruned skip path →
      disk.lists (root.below path) = true → (name, t) ∈ entries →
      Visits disk root skip (path ++ [name]) t e →
      Visits disk root skip path (.directory entries) e

theorem mem_listing {directory : Path} {entries : List (String × FileTree)}
    {e : String × FileTree} :
    e ∈ listing disk directory entries ↔ disk.lists directory = true ∧ e ∈ entries := by
  rw [listing]
  split
  · rename_i h
    rw [(Table.perm_sorted entries).mem_iff, and_iff_right h]
  · rename_i h
    exact iff_of_false List.not_mem_nil fun hboth => h hboth.1

theorem mem_ofPending {path : List String} {pending : List (String × FileTree)} {e : WalkEntry} :
    e ∈ ofPending disk root skip path pending
      ↔ ∃ d ∈ pending, e ∈ ofTree disk root skip (path ++ [d.1]) d.2 :=
  List.mem_flatMap

theorem mem_ofTree_iff {t : FileTree} {path : List String} {e : WalkEntry} :
    e ∈ ofTree disk root skip path t ↔ Visits disk root skip path t e := by
  constructor
  · intro he
    induction t using FileTree.induction generalizing path with
    | file bytes =>
      rw [ofTree, List.mem_singleton] at he
      exact he ▸ .file
    | link target =>
      rw [ofTree] at he
      split at he
      · rename_i hlink
        rw [List.mem_singleton] at he
        exact he ▸ .link hlink
      · simp at he
    | directory entries ih =>
      rw [ofTree_directory] at he
      split at he
      · simp at he
      · rename_i hskip
        rcases List.mem_cons.mp he with rfl | he
        · exact .directory hskip
        · obtain ⟨d, hd, hin⟩ := mem_ofPending.mp he
          obtain ⟨hlists, hd⟩ := mem_listing.mp hd
          exact .inside hskip hlists hd (ih d hd hin)
  · intro h
    induction h with
    | file => simp [ofTree]
    | link hlink => simp [ofTree, hlink]
    | directory hskip => simp [ofTree_directory, hskip]
    | inside hskip hlists hmem _ ih =>
      rw [ofTree_directory, if_neg hskip]
      exact List.mem_cons_of_mem _ (mem_ofPending.mpr ⟨_, mem_listing.mpr ⟨hlists, hmem⟩, ih⟩)

/-- A path goes on from that of the tree, by proper names. -/
theorem Visits.path_eq {path : List String} {t : FileTree} {e : WalkEntry}
    (h : Visits disk root skip path t e) (hnamed : t.Named) :
    ∃ rest, e.path = path ++ rest ∧ ∀ s ∈ rest, FileTree.EntryName s := by
  induction h with
  | file => exact ⟨[], by simp, by simp⟩
  | link _ => exact ⟨[], by simp, by simp⟩
  | directory _ => exact ⟨[], by simp, by simp⟩
  | @inside _ _ name _ _ _ _ hmem _ ih =>
    obtain ⟨hname, hinner⟩ := hnamed.entries _ hmem
    obtain ⟨rest, hpath, hrest⟩ := ih hinner
    exact ⟨name :: rest, by rw [hpath, List.append_assoc]; rfl,
      List.forall_mem_cons.mpr ⟨hname, hrest⟩⟩

/-- The walk below a path visits what is to be visited in the directory that it leads to. -/
theorem mem_entries_iff {e : WalkEntry} :
    e ∈ entries disk root skip ↔ ∃ place inner, disk.directory? root = some place
      ∧ disk.tree.at? place = some (.directory inner) ∧ disk.lists root = true
      ∧ ∃ d ∈ inner, Visits disk root skip [d.1] d.2 e := by
  cases hplace : disk.directory? root with
  | none => simp [entries, hplace]
  | some place =>
    cases hat : disk.tree.at? place with
    | none => simp [entries, hplace, hat]
    | some t =>
      cases t with
      | file bytes => simp [entries, hplace, hat]
      | link target => simp [entries, hplace, hat]
      | directory inner =>
        rw [entries_eq hplace hat, mem_ofPending]
        simp only [mem_listing, mem_ofTree_iff, List.nil_append, hat, Option.some.injEq,
          FileTree.directory.injEq, exists_and_left, exists_eq_left', and_assoc]

theorem proper_of_mem_entries (hnamed : disk.tree.Named) {e : WalkEntry}
    (he : e ∈ entries disk root skip) :
    e.path ≠ [] ∧ ∀ s ∈ e.path, FileTree.EntryName s := by
  obtain ⟨place, inner, _, hat, _, d, hd, hvisits⟩ := mem_entries_iff.mp he
  obtain ⟨hname, hd⟩ := (hnamed.at? hat).entries d hd
  obtain ⟨rest, hpath, hrest⟩ := hvisits.path_eq hd
  rw [hpath]
  exact ⟨by simp, List.forall_mem_cons.mpr ⟨hname, hrest⟩⟩

/-! ## The order of a walk -/

theorem Visits.starts {path : List String} {t : FileTree} {e : WalkEntry}
    (h : Visits disk root skip path t e) : path <+: e.path := by
  induction h with
  | file => exact List.prefix_refl _
  | link _ => exact List.prefix_refl _
  | directory _ => exact List.prefix_refl _
  | inside _ _ _ _ ih => exact (List.prefix_append _ _).trans ih

/-- The walks of the entries of a directory follow each other in the order of their names. -/
theorem ascending_ofPending {path : List String} {pending : List (String × FileTree)}
    (hnames : (pending.map (·.1)).Pairwise (· < ·))
    (h : ∀ d ∈ pending,
      ((ofTree disk root skip (path ++ [d.1]) d.2).map (·.path)).Pairwise (· < ·)) :
    ((ofPending disk root skip path pending).map (·.path)).Pairwise (· < ·) := by
  rw [ofPending, List.map_flatMap, List.flatMap, List.pairwise_flatten]
  refine ⟨List.forall_mem_map.mpr h, ?_⟩
  rw [List.pairwise_map]
  refine (List.pairwise_map.mp hnames).imp fun {a b} hlt p hp q hq => ?_
  obtain ⟨e, he, rfl⟩ := List.mem_map.mp hp
  obtain ⟨f, hf, rfl⟩ := List.mem_map.mp hq
  obtain ⟨r, hr⟩ := (mem_ofTree_iff.mp he).starts
  obtain ⟨s, hs⟩ := (mem_ofTree_iff.mp hf).starts
  rw [← hr, ← hs, List.append_assoc, List.append_assoc]
  exact List.append_left_lt (List.cons_lt_cons_iff.mpr (Or.inl hlt))

/-- Distinct names are listed in ascending order. -/
theorem ascending_listing {directory : Path} {entries : List (String × FileTree)}
    (h : (entries.map (·.1)).Nodup) :
    ((listing disk directory entries).map (·.1)).Pairwise (· < ·) := by
  rw [listing]
  split
  · exact Table.ascending_sorted h
  · exact List.Pairwise.nil

theorem ascending_ofTree (t : FileTree) (ht : t.Distinct) (path : List String) :
    ((ofTree disk root skip path t).map (·.path)).Pairwise (· < ·) := by
  induction t using FileTree.induction generalizing path with
  | file bytes => simp [ofTree]
  | link target =>
    rw [ofTree]
    split <;> simp
  | directory inner ih =>
    obtain ⟨hnames, hall⟩ := ht.entries
    rw [ofTree_directory]
    split
    · exact List.Pairwise.nil
    · rw [List.map_cons, List.pairwise_cons]
      refine ⟨fun p hp => ?_, ascending_ofPending (ascending_listing hnames) fun d hd =>
        ih d (mem_listing.mp hd).2 (hall d (mem_listing.mp hd).2) _⟩
      obtain ⟨e, he, rfl⟩ := List.mem_map.mp hp
      obtain ⟨d, hd, hin⟩ := mem_ofPending.mp he
      obtain ⟨rest, hrest⟩ := (mem_ofTree_iff.mp hin).starts
      have hlt : path ++ [] < path ++ d.1 :: rest :=
        List.append_left_lt (List.nil_lt_cons _ _)
      rw [← hrest]
      simpa using hlt

/-- Paths are visited in ascending order, segment by segment, so none is visited twice. -/
theorem ascending_entries (hdistinct : disk.tree.Distinct) (root : Path) (skip : NameSet) :
    ((entries disk root skip).map (·.path)).Pairwise (· < ·) := by
  cases hplace : disk.directory? root with
  | none => simp [entries, hplace]
  | some place =>
    cases hat : disk.tree.at? place with
    | none => simp [entries, hplace, hat]
    | some t =>
      cases t with
      | file bytes => simp [entries, hplace, hat]
      | link target => simp [entries, hplace, hat]
      | directory inner =>
        obtain ⟨hnames, hall⟩ := (hdistinct.at? hat).entries
        rw [entries_eq hplace hat]
        exact ascending_ofPending (ascending_listing hnames) fun d hd =>
          ascending_ofTree d.2 (hall d (mem_listing.mp hd).2) _

theorem nodup_entries (hdistinct : disk.tree.Distinct) (root : Path) (skip : NameSet) :
    ((entries disk root skip).map (·.path)).Nodup := by
  refine (ascending_entries hdistinct root skip).imp fun hlt heq => ?_
  rw [heq] at hlt
  exact List.lt_irrefl _ hlt

end RepoSurvey.Walk
