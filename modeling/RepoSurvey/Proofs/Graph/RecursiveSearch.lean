import RepoSurvey.Proofs.Graph.SearchInvariant

/-!
# The recursive search

The cycle search as a recursion: a node is visited by marking it and going through its successors
with the node at the end of the path; on return the path is what it was before.

* `CycleSearch.Record`: what a search has noted, wherever it stands;
* `CycleSearch.explore`: go through some nodes at the end of a path;
* `CycleSearch.explore_enter`, `CycleSearch.explore_close`, `CycleSearch.explore_pass`: what it does
  with a node that is not visited, one on the path, and one that was left before;
* `CycleSearch.resume`: what a state comes to if the recursion takes it from there;
* `CycleSearch.Move.resume_eq`: a move does not change that;
* `CycleSearch.search_eq_explore`: the search by steps ends, and finds what the recursion finds.
-/

namespace RepoSurvey.CycleSearch

variable {ν : Type} [DecidableEq ν]

/-! ## The recursion -/

/-- The nodes entered so far, the last first, the keys of the cycles found, and the cycles. -/
structure Record (ν : Type) where
  visited : List ν
  seen : List String
  found : List (List ν)

namespace Record

def blank : Record ν := ⟨[], [], []⟩

def mark (r : Record ν) (v : ν) : Record ν := { r with visited := v :: r.visited }

/-- Take down a cycle, if its key is new. -/
def note (label : ν → String) (r : Record ν) (cycle : List ν) : Record ν :=
  if key label cycle ∈ r.seen then r
  else { r with seen := key label cycle :: r.seen, found := r.found ++ [cycle] }

omit [DecidableEq ν] in
@[simp] theorem visited_mark (r : Record ν) (v : ν) : (r.mark v).visited = v :: r.visited := rfl

omit [DecidableEq ν] in
@[simp] theorem visited_note (label : ν → String) (r : Record ν) (cycle : List ν) :
    (r.note label cycle).visited = r.visited := by
  unfold note
  split <;> rfl

/-- The nodes of the graph that were not entered. -/
def unvisited (g : Digraph ν) (r : Record ν) : List ν := g.nodes.filter (· ∉ r.visited)

theorem length_unvisited_le {g : Digraph ν} {r t : Record ν} (h : r.visited ⊆ t.visited) :
    (t.unvisited g).length ≤ (r.unvisited g).length := by
  apply List.Sublist.length_le
  apply List.monotone_filter_right
  intro v hv
  simp only [decide_eq_true_eq] at hv ⊢
  exact fun hr => hv (h hr)

theorem length_unvisited_mark_lt {g : Digraph ν} {r : Record ν} {v : ν} (hnode : v ∈ g.nodes)
    (hv : v ∉ r.visited) : ((r.mark v).unvisited g).length < (r.unvisited g).length := by
  have hmem : v ∈ r.unvisited g := by simp [unvisited, hnode, hv]
  have hsplit : (r.mark v).unvisited g = (r.unvisited g).filter (· ≠ v) := by
    simp [unvisited, mark, List.filter_filter]
  rw [hsplit]
  apply List.length_filter_lt_length_iff_exists.mpr
  exact ⟨v, hmem, by simp⟩

end Record

/-- Go through the targets in turn, at the end of the path: enter those that are not visited and go
through their successors, and take down the cycles that those on the path close. With the record
comes that no node entered is forgotten, which is why the recursion ends. -/
def exploreFrom (g : Digraph ν) (label : ν → String) (path : List ν) :
    (targets : List ν) → (r : Record ν) → { t : Record ν // r.visited ⊆ t.visited }
  | [], r => ⟨r, List.Subset.refl _⟩
  | v :: rest, r =>
    if h : v ∈ g.nodes ∧ v ∉ r.visited then
      let inner := exploreFrom g label (path ++ [v]) (g.successors v) (r.mark v)
      have hinner : r.visited ⊆ inner.1.visited :=
        List.Subset.trans (List.subset_cons_self _ _) inner.2
      let outer := exploreFrom g label path rest inner.1
      ⟨outer.1, List.Subset.trans hinner outer.2⟩
    else if v ∈ path then
      let outer := exploreFrom g label path rest (r.note label (path.dropWhile (· ≠ v)))
      ⟨outer.1, by simpa using outer.2⟩
    else exploreFrom g label path rest r
termination_by targets r => ((r.unvisited g).length, targets.length)
decreasing_by
  · exact .left _ _ (Record.length_unvisited_mark_lt h.1 h.2)
  · rcases Nat.lt_or_eq_of_le (Record.length_unvisited_le hinner) with hless | hsame
    · exact .left _ _ hless
    · rw [hsame]
      exact .right _ (by simp)
  · rw [Record.unvisited, Record.visited_note]
    exact .right _ (by simp)
  · exact .right _ (by simp)

/-- What is noted after going through the targets at the end of the path. -/
def explore (g : Digraph ν) (label : ν → String) (path targets : List ν) (r : Record ν) : Record ν :=
  (exploreFrom g label path targets r).1

section Cases

variable {g : Digraph ν} {label : ν → String} {path rest : List ν} {v : ν} {r : Record ν}

@[simp] theorem explore_nil : explore g label path [] r = r := by
  rw [explore, exploreFrom]

/-- A node that is not visited is marked, put on the path, and left after its successors. -/
theorem explore_enter (hnode : v ∈ g.nodes) (hv : v ∉ r.visited) :
    explore g label path (v :: rest) r
      = explore g label path rest (explore g label (path ++ [v]) (g.successors v) (r.mark v)) := by
  rw [explore, exploreFrom, dif_pos ⟨hnode, hv⟩]
  rfl

/-- A node on the path closes the cycle that is the path from that node on. -/
theorem explore_close (hold : ¬ (v ∈ g.nodes ∧ v ∉ r.visited)) (hpath : v ∈ path) :
    explore g label path (v :: rest) r
      = explore g label path rest (r.note label (path.dropWhile (· ≠ v))) := by
  rw [explore, exploreFrom, dif_neg hold, if_pos hpath]
  rfl

/-- A node that was visited and left is passed over, and so is what is no node. -/
theorem explore_pass (hold : ¬ (v ∈ g.nodes ∧ v ∉ r.visited)) (hpath : v ∉ path) :
    explore g label path (v :: rest) r = explore g label path rest r := by
  rw [explore, exploreFrom, dif_neg hold, if_neg hpath]
  rfl

/-- Targets are gone through one after the other. -/
theorem explore_cons : explore g label path (v :: rest) r
    = explore g label path rest (explore g label path [v] r) := by
  by_cases hnew : v ∈ g.nodes ∧ v ∉ r.visited
  · rw [explore_enter hnew.1 hnew.2, explore_enter hnew.1 hnew.2, explore_nil]
  · by_cases hpath : v ∈ path
    · rw [explore_close hnew hpath, explore_close hnew hpath, explore_nil]
    · rw [explore_pass hnew hpath, explore_pass hnew hpath, explore_nil]

end Cases

/-! ## Taking over from the search by steps -/

def State.record (s : State ν) : Record ν := ⟨s.visited, s.seen, s.found⟩

/-- The record after going through what is pending: at the end of the path first, then at the node
before it, and so on. -/
def resume (g : Digraph ν) (label : ν → String) : List ν → List (List ν) → Record ν → Record ν
  | u :: path, more :: pending, r =>
    resume g label path pending (explore g label (u :: path).reverse more r)
  | _, _, r => r

variable {g : Digraph ν} {label : ν → String} {s t : State ν}

/-- The path from a node on it up to its end. -/
theorem dropWhile_reverse {front back : List ν} {v : ν} (h : (front ++ v :: back).Nodup) :
    (front ++ v :: back).reverse.dropWhile (· ≠ v) = v :: front.reverse := by
  have hback : ∀ x ∈ back.reverse, decide (x ≠ v) = true := by
    intro x hx
    have hv : v ∉ back := (List.nodup_cons.mp (List.nodup_append.mp h).2.1).1
    apply decide_eq_true
    rintro rfl
    exact hv (List.mem_reverse.mp hx)
  rw [List.reverse_append, List.reverse_cons, List.append_assoc,
    List.dropWhile_append_of_pos hback]
  simp

/-- Where a successor is on the path, the recursion takes down the cycle that it closes. -/
theorem resume_close (h : Aligned g s) {v : ν} {front back more : List ν}
    {pending : List (List ν)} (hpath : s.path = front ++ v :: back)
    (hpending : s.pending = (v :: more) :: pending) :
    resume g label s.path s.pending s.record
      = resume g label s.path (more :: pending) (s.record.note label (v :: front.reverse)) := by
  have hon : v ∈ s.path := by simp [hpath]
  have hvisited : v ∈ s.record.visited := h.visited v hon
  have hcycle : s.path.reverse.dropWhile (· ≠ v) = v :: front.reverse := by
    have hnodup := h.nodup
    rw [hpath] at hnodup ⊢
    exact dropWhile_reverse hnodup
  obtain ⟨u, rest, hu⟩ := exists_end hpath
  rw [hpending, hu, resume, resume, ← hu,
    explore_close (fun hnew => hnew.2 hvisited) (List.mem_reverse.mpr hon), hcycle]

/-- What a state comes to is not changed by a move. -/
theorem Move.resume_eq (hm : Move g label s t) (h : Aligned g s) :
    resume g label t.path t.pending t.record = resume g label s.path s.pending s.record := by
  cases hm with
  | @leave u path pending hpath hpending =>
    simp only [hpath, hpending, resume, explore_nil]
    rfl
  | @enter u v path more pending hpath hpending hv =>
    have hnode : v ∈ g.nodes := Digraph.successors_subset (h.mem_successors hpath hpending)
    have hfresh : v ∉ s.record.visited := hv
    simp only [State.enter, hpath, hpending, resume, explore_enter hnode hfresh]
    simp [State.record, Record.mark]
  | @report v front back more pending hpath hpending hnew =>
    have hnote : s.record.note label (v :: front.reverse) = ⟨s.visited,
        key label (v :: front.reverse) :: s.seen, s.found ++ [v :: front.reverse]⟩ := if_neg hnew
    rw [resume_close h hpath hpending, hnote]
    rfl
  | @known v front back more pending hpath hpending hseen =>
    have hnote : s.record.note label (v :: front.reverse) = s.record := if_pos hseen
    rw [resume_close h hpath hpending, hnote]
    rfl
  | @pass u v path more pending hpath hpending hv hleft =>
    have hvisited : v ∈ s.record.visited := hv
    have hoff : v ∉ s.path.reverse := fun hon => hleft (List.mem_reverse.mp hon)
    rw [hpath] at hoff
    rw [hpending, hpath, resume, resume, explore_pass (fun hnew => hnew.2 hvisited) hoff]
    rfl

/-! ## The two searches -/

/-- From one starting point the steps note what the recursion notes. -/
theorem searchFrom_eq_explore (label : ν → String) (root : ν) (h : Aligned g s) (hpath : s.path = []) :
    ∃ t, searchFrom g label s root = some t ∧ Aligned g t ∧ t.path = []
      ∧ t.record = explore g label [] [root] s.record := by
  by_cases hskip : root ∈ s.visited ∨ root ∉ g.nodes
  · refine ⟨s, by simp [searchFrom, hskip], h, hpath, ?_⟩
    have hold : ¬ (root ∈ g.nodes ∧ root ∉ s.record.visited) :=
      fun hnew => hskip.elim hnew.2 fun hno => hno hnew.1
    rw [explore_pass hold List.not_mem_nil, explore_nil]
  · obtain ⟨hfresh, hroot⟩ := not_or.mp hskip
    have hroot : root ∈ g.nodes := Classical.not_not.mp hroot
    let start := s.enter g root
    have hstart : Aligned g start := h.enter hpath hroot
    obtain ⟨t, hrun, ht, htpath, hresume, _⟩ := run_induction
      (P := fun t => resume g label t.path t.pending t.record
        = resume g label start.path start.pending start.record)
      (fun s t hs hP hm => (hm.resume_eq hs).trans hP) (remaining g start) start hstart rfl le_rfl
    refine ⟨t, by simpa [searchFrom, hskip] using hrun, ht, htpath, ?_⟩
    have hend : t.record = resume g label start.path start.pending start.record := by
      rw [← hresume, htpath, resume]
      simp
    have hpending : s.pending = [] := h.pending_eq_nil hpath
    rw [hend, explore_enter hroot hfresh, explore_nil]
    simp only [start, State.enter, hpath, hpending, resume]
    rfl

theorem foldlM_searchFrom_eq_explore (label : ν → String) (order : List ν) (h : Aligned g s) (hpath : s.path = []) :
    ∃ t, order.foldlM (searchFrom g label) s = some t ∧ Aligned g t ∧ t.path = []
      ∧ t.record = explore g label [] order s.record := by
  induction order generalizing s with
  | nil => exact ⟨s, rfl, h, hpath, by rw [explore_nil]⟩
  | cons root order ih =>
    obtain ⟨t, hfrom, ht, htpath, hrecord⟩ := searchFrom_eq_explore label root h hpath
    obtain ⟨u, hfold, hu, hupath, hrest⟩ := ih ht htpath
    refine ⟨u, ?_, hu, hupath, ?_⟩
    · simp [List.foldlM_cons, hfrom, hfold]
    · rw [hrest, hrecord, ← explore_cons]

/-- The search by steps comes to an end, with nothing pending and an empty path, whatever it starts
from. It has visited the nodes in the order of the recursion, and found the same cycles, in the
same order and each from the same member on. -/
theorem search_eq_explore (g : Digraph ν) (label : ν → String) (order : Option (List ν)) :
    ∃ s, search g label (order.getD g.nodes) = some s ∧ s.pending = [] ∧ s.path = []
      ∧ s.record = explore g label [] (order.getD g.nodes) Record.blank
      ∧ g.cycles label order
        = (explore g label [] (order.getD g.nodes) Record.blank).found := by
  obtain ⟨s, hsearch, hs, hpath, hrecord⟩ := foldlM_searchFrom_eq_explore label
    (order.getD g.nodes) (aligned_initial g) rfl
  have hsearch : search g label (order.getD g.nodes) = some s := hsearch
  refine ⟨s, hsearch, hs.pending_eq_nil hpath, hpath, hrecord, ?_⟩
  have hcycles : g.cycles label order = s.record.found := by
    simp [Digraph.cycles, hsearch, State.record]
  rw [hcycles, hrecord]
  rfl

end RepoSurvey.CycleSearch
