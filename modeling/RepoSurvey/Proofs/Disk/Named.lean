import RepoSurvey.Disk.Lookup
import RepoSurvey.Proofs.Path.Segments

/-!
# Trees with proper names

* `FileTree.induction`: what holds of a directory if it holds of everything in it holds of every
  tree;
* `FileTree.Named`: everything in the tree has a name that a file system can store, which can be
  decided;
* `mem_of_find?`, `find?_eq_some`: looking for a name in a directory;
* `at?_append`, `Named.at?`: going down a tree.
-/

namespace RepoSurvey

namespace FileTree

@[elab_as_elim]
theorem induction {motive : FileTree → Prop} (file : ∀ bytes, motive (.file bytes))
    (link : ∀ target, motive (.link target))
    (directory : ∀ entries : List (String × FileTree),
      (∀ e ∈ entries, motive e.2) → motive (.directory entries)) : ∀ t, motive t
  | .file bytes => file bytes
  | .link target => link target
  | .directory entries => directory entries fun e he =>
    have : sizeOf e.2 < sizeOf entries := by
      obtain ⟨name, tree⟩ := e
      have hentry := List.sizeOf_lt_of_mem he
      rw [Prod.mk.sizeOf_spec] at hentry
      show sizeOf tree < sizeOf entries
      omega
    induction file link directory e.2

/-- A name that can be stored: proper and not too long. -/
structure EntryName (name : String) : Prop extends Name.Proper name where
  short : name.utf8ByteSize ≤ Disk.nameLimit

instance (name : String) : Decidable (EntryName name) :=
  decidable_of_iff (name ≠ "" ∧ name ≠ "." ∧ name ≠ ".." ∧ '/' ∉ name.toList
      ∧ '\x00' ∉ name.toList ∧ name.utf8ByteSize ≤ Disk.nameLimit)
    ⟨fun ⟨h₁, h₂, h₃, h₄, h₅, h₆⟩ => ⟨⟨h₁, h₂, h₃, h₄, h₅⟩, h₆⟩,
      fun h => ⟨h.ne_empty, h.ne_dot, h.ne_dots, h.slash_free, h.nul_free, h.short⟩⟩

/-- Everything in the tree has a name that can be stored. -/
inductive Named : FileTree → Prop
  | file (bytes : List UInt8) : Named (.file bytes)
  | link (target : String) : Named (.link target)
  | directory (entries : List (String × FileTree)) : (∀ e ∈ entries, EntryName e.1) →
      (∀ e ∈ entries, Named e.2) → Named (.directory entries)

mutual

/-- Do the names in every directory of a tree satisfy `p`? -/
def everyDirectory (p : List String → Bool) : FileTree → Bool
  | .file _ => true
  | .link _ => true
  | .directory entries => p (entries.map (·.1)) && insideEvery p entries

def insideEvery (p : List String → Bool) : List (String × FileTree) → Bool
  | [] => true
  | (_, t) :: rest => everyDirectory p t && insideEvery p rest

end

theorem insideEvery_iff {p : List String → Bool} {entries : List (String × FileTree)} :
    insideEvery p entries = true ↔ ∀ e ∈ entries, everyDirectory p e.2 = true := by
  induction entries with
  | nil => simp [insideEvery]
  | cons e rest ih => simp [insideEvery, ih]

theorem named_iff {t : FileTree} :
    t.Named ↔ everyDirectory (fun names => names.all fun n => decide (EntryName n)) t = true := by
  induction t using FileTree.induction with
  | file bytes => exact iff_of_true (.file bytes) rfl
  | link target => exact iff_of_true (.link target) rfl
  | directory entries ih =>
    rw [everyDirectory, Bool.and_eq_true, insideEvery_iff]
    constructor
    · rintro (_ | _ | ⟨_, hnames, hall⟩)
      exact ⟨by simpa using hnames, fun e he => (ih e he).mp (hall e he)⟩
    · rintro ⟨hnames, hall⟩
      exact .directory _ (by simpa using hnames) fun e he => (ih e he).mpr (hall e he)

instance (t : FileTree) : Decidable t.Named := decidable_of_iff _ named_iff.symm

theorem mem_of_find? {name : String} {t : FileTree} {entries : List (String × FileTree)}
    (h : find? name entries = some t) : (name, t) ∈ entries := by
  induction entries with
  | nil => cases h
  | cons e rest ih =>
    obtain ⟨n, u⟩ := e
    rw [find?] at h
    split at h
    · rename_i hn
      cases h
      rw [hn]
      exact List.mem_cons_self
    · exact List.mem_cons_of_mem _ (ih h)

/-- Where names are distinct, everything in a directory is found by its name. -/
theorem find?_eq_some {name : String} {t : FileTree} {entries : List (String × FileTree)}
    (hnodup : (entries.map (·.1)).Nodup) (h : (name, t) ∈ entries) :
    find? name entries = some t := by
  induction entries with
  | nil => simp at h
  | cons e rest ih =>
    obtain ⟨n, u⟩ := e
    obtain ⟨hn, hrest⟩ := List.nodup_cons.mp hnodup
    rw [find?]
    rcases List.mem_cons.mp h with heq | hmem
    · cases heq
      rw [if_pos rfl]
    · have hne : n ≠ name := by
        rintro rfl
        exact hn (List.mem_map_of_mem (f := (·.1)) hmem)
      rw [if_neg hne]
      exact ih hrest hmem

theorem at?_append (t : FileTree) (p q : List String) :
    t.at? (p ++ q) = (t.at? p).bind fun u => u.at? q := by
  induction p generalizing t with
  | nil => rfl
  | cons name p ih =>
    rw [List.cons_append, at?, at?]
    cases find? name t.entries with
    | none => rfl
    | some u => exact ih u

theorem at?_directory_child {entries : List (String × FileTree)} {t : FileTree}
    {place : List String} (h : t.at? place = some (.directory entries)) (name : String) :
    t.at? (place ++ [name]) = find? name entries := by
  rw [at?_append, h]
  change (find? name entries).bind _ = _
  cases find? name entries <;> rfl

theorem Named.entries {t : FileTree} (h : t.Named) :
    ∀ e ∈ t.entries, EntryName e.1 ∧ e.2.Named := by
  cases h with
  | file => simp [FileTree.entries]
  | link => simp [FileTree.entries]
  | directory entries hnames hall => exact fun e he => ⟨hnames e he, hall e he⟩

theorem Named.at? {t u : FileTree} (h : t.Named) {path : List String}
    (hu : t.at? path = some u) : u.Named := by
  induction path generalizing t with
  | nil =>
    cases hu
    exact h
  | cons name path ih =>
    rw [FileTree.at?] at hu
    obtain ⟨v, hv, hu⟩ := Option.bind_eq_some_iff.mp hu
    exact ih (h.entries _ (mem_of_find? hv)).2 hu

end FileTree

end RepoSurvey
