import RepoSurvey.Disk.Walk
import RepoSurvey.Proofs.Table

/-!
# Walks in preorder

A walk keeps a stack of the directories that it has entered. What it visits is what a recursion
over the tree visits: everything in a directory after the directory itself, and before what
follows the directory.

* `Walk.ofTree`: the walk as a recursion over the tree;
* `Walk.ofPending`, `Walk.ofStack`: what is to be visited where directories have been entered;
* `Walk.ofStack_step`, `Walk.remaining_step`: a step visits the first of it, if anything, leaves
  the rest, and leaves fewer steps;
* `Walk.run_eq_ofStack`: hence a run with enough steps visits all of it;
* `Walk.entries_eq`: the walk below a path is the recursive one.
-/

namespace RepoSurvey

theorem FileTree.stepsInside_eq (entries : List (String × FileTree)) :
    stepsInside entries = (entries.map fun e => e.2.steps).sum := by
  induction entries with
  | nil => rfl
  | cons e rest ih => rw [stepsInside, ih, List.map_cons, List.sum_cons]

namespace Walk

mutual

/-- The walk of one thing at a path from the start. -/
def ofTree (disk : Disk) (root : Path) (skip : NameSet) (path : List String) :
    FileTree → List WalkEntry
  | .file _ => [⟨path, false⟩]
  | .link _ => if (disk.lookup (root.below path)).isFile then [⟨path, false⟩] else []
  | .directory entries =>
    if isPruned skip path then []
    else ⟨path, true⟩ ::
      if disk.lists (root.below path) then
        (Table.sorted (ofEach disk root skip path entries)).flatMap (·.2)
      else []

/-- The walks of the entries of a directory, each under its name. -/
def ofEach (disk : Disk) (root : Path) (skip : NameSet) (path : List String) :
    List (String × FileTree) → Table (List WalkEntry)
  | [] => []
  | (name, tree) :: rest =>
    (name, ofTree disk root skip (path ++ [name]) tree) :: ofEach disk root skip path rest

end

/-- What is to be visited of the entries of a directory that are still to be looked at. -/
def ofPending (disk : Disk) (root : Path) (skip : NameSet) (path : List String)
    (pending : List (String × FileTree)) : List WalkEntry :=
  pending.flatMap fun e => ofTree disk root skip (path ++ [e.1]) e.2

/-- What is to be visited of the directories that have been entered. -/
def ofStack (disk : Disk) (root : Path) (skip : NameSet) (stack : List Frame) : List WalkEntry :=
  stack.flatMap fun f => ofPending disk root skip f.path f.pending

variable {disk : Disk} {root : Path} {skip : NameSet}

theorem ofEach_eq_map (path : List String) (entries : List (String × FileTree)) :
    ofEach disk root skip path entries
      = entries.map fun e => (e.1, ofTree disk root skip (path ++ [e.1]) e.2) := by
  induction entries with
  | nil => rfl
  | cons e rest ih => rw [ofEach, ih, List.map_cons]

/-- A directory that is not passed over is visited, and then what listing it gives. -/
theorem ofTree_directory (path : List String) (entries : List (String × FileTree)) :
    ofTree disk root skip path (.directory entries)
      = if isPruned skip path then []
        else ⟨path, true⟩ ::
          ofPending disk root skip path (listing disk (root.below path) entries) := by
  rw [ofTree, listing, ofPending, ofEach_eq_map, Table.sorted_map]
  split
  · rfl
  · split
    · rw [List.flatMap_map]
    · rfl

theorem ofStack_append (inner outer : List Frame) :
    ofStack disk root skip (inner ++ outer)
      = ofStack disk root skip inner ++ ofStack disk root skip outer := by
  simp [ofStack]

theorem remaining_append (inner outer : List Frame) :
    remaining (inner ++ outer) = remaining inner + remaining outer := by
  induction inner with
  | nil => simp [remaining]
  | cons f inner ih =>
    simp only [remaining, List.cons_append, List.map_cons, List.foldr_cons] at ih ⊢
    omega

/-- Looking at a thing visits it, and what is in it is left to be visited. -/
theorem ofTree_eq_look (path : List String) (t : FileTree) :
    ofTree disk root skip path t = (look disk root skip path t).1.toList
      ++ ofStack disk root skip (look disk root skip path t).2.toList := by
  cases t with
  | file bytes => simp [ofTree, look, ofStack]
  | link target =>
    by_cases h : (disk.lookup (root.below path)).isFile <;> simp [ofTree, look, ofStack, h]
  | directory entries =>
    rw [ofTree_directory]
    by_cases h : isPruned skip path <;>
      simp [look, ofStack, h]

/-- Listing a directory gives no more than what is in it. -/
theorem stepsInside_listing (directory : Path) (entries : List (String × FileTree)) :
    FileTree.stepsInside (listing disk directory entries) ≤ FileTree.stepsInside entries := by
  rw [listing]
  split
  · rw [FileTree.stepsInside_eq, FileTree.stepsInside_eq]
    exact Nat.le_of_eq ((Table.perm_sorted entries).map fun e => e.2.steps).sum_nat
  · exact Nat.zero_le _

theorem remaining_look (path : List String) (t : FileTree) :
    remaining (look disk root skip path t).2.toList < t.steps := by
  cases t with
  | file bytes => simp [look, remaining, FileTree.steps]
  | link target => simp [look, remaining, FileTree.steps]
  | directory entries =>
    have hlisting := @stepsInside_listing disk (root.below path) entries
    by_cases h : isPruned skip path
    · simp [look, remaining, FileTree.steps, h]
    · simp [look, remaining, FileTree.steps, h]
      omega

/-- A step visits the first of what is to be visited, if anything, and leaves the rest. -/
theorem ofStack_step (stack : List Frame) :
    ofStack disk root skip stack = (step disk root skip stack).1.toList
      ++ ofStack disk root skip (step disk root skip stack).2 := by
  cases stack with
  | nil => simp [step, ofStack]
  | cons f outer =>
    obtain ⟨path, pending⟩ := f
    cases pending with
    | nil => simp [step, ofStack, ofPending]
    | cons e pending =>
      obtain ⟨name, tree⟩ := e
      have hlook := @ofTree_eq_look disk root skip (path ++ [name]) tree
      simp only [step, ofStack_append]
      simp only [ofStack, List.flatMap_cons, ofPending] at hlook ⊢
      rw [hlook]
      simp only [List.append_assoc]

theorem remaining_step {stack : List Frame} (h : stack ≠ []) :
    remaining (step disk root skip stack).2 < remaining stack := by
  cases stack with
  | nil => exact absurd rfl h
  | cons f outer =>
    obtain ⟨path, pending⟩ := f
    cases pending with
    | nil => simp [step, remaining, FileTree.stepsInside]
    | cons e pending =>
      obtain ⟨name, tree⟩ := e
      have hlook := @remaining_look disk root skip (path ++ [name]) tree
      simp only [step, remaining_append]
      simp only [remaining, List.map_cons, List.foldr_cons, FileTree.stepsInside] at hlook ⊢
      omega

/-- With as many steps as remain, a run visits all that is to be visited. -/
theorem run_eq_ofStack {count : Nat} {stack : List Frame} (h : remaining stack ≤ count) :
    run disk root skip count stack = ofStack disk root skip stack := by
  induction count generalizing stack with
  | zero =>
    cases stack with
    | nil => rfl
    | cons f outer => simp [remaining] at h
  | succ count ih =>
    by_cases hstack : stack = []
    · rw [hstack]
      rfl
    · have hless := @remaining_step disk root skip _ hstack
      have hrest : run disk root skip count (step disk root skip stack).2
          = ofStack disk root skip (step disk root skip stack).2 := ih (by omega)
      rw [ofStack_step, ← hrest]
      simp [run, hstack]

/-- The walk below a path is the recursive one of the directory that the path leads to. -/
theorem entries_eq {place : List String} {inner : List (String × FileTree)}
    (hplace : disk.directory? root = some place)
    (hat : disk.tree.at? place = some (.directory inner)) :
    entries disk root skip = ofPending disk root skip [] (listing disk root inner) := by
  have hrun := @run_eq_ofStack disk root skip _ _
    (Nat.le_refl (remaining [⟨[], listing disk root inner⟩]))
  simp only [entries, hplace, Option.bind_some, hat, hrun]
  simp [ofStack]

end Walk

end RepoSurvey
