import RepoSurvey.Proofs.Graph.CycleCompleteness
import RepoSurvey.Proofs.Graph.RecursiveSearch

/-!
# What the rounds of the search rely on

Five parts of a state are written in different steps, and each step reads some of them. They stay
in joint, so that no step fails.

* `CycleSearch.Consistent`: what the parts of a state are to each other;
* `CycleSearch.AtRest`: the path has been left altogether;
* `CycleSearch.Consistent.exists_step`, `CycleSearch.Consistent.atRest`: in a consistent state a
  step does not fail, and without anything pending the search is at rest;
* `CycleSearch.consistent_of_covered`: a state that is aligned and covered is consistent;
* `CycleSearch.consistent_rounds`: every state that the search passes is consistent, and after each
  starting point the search is at rest.
-/

namespace RepoSurvey.CycleSearch

variable {ν : Type} [DecidableEq ν]

/-- What the parts of a state are to each other: there are as many lists of pending successors as
nodes on the path, which is a walk without repetition, from its start to its end; the nodes on the
path are visited and have positions, no other has, and the positions count the path from its start;
and what was left has no successor that was not visited. -/
structure Consistent (g : Digraph ν) (s : State ν) : Prop where
  length_pending : s.pending.length = s.path.length
  nodup_path : s.path.Nodup
  walk : s.path.reverse.IsChain g.Adj
  mem_onPath : ∀ v, v ∈ s.onPath ↔ v ∈ s.path
  onPath_subset : s.onPath ⊆ s.visited
  nodup_keys : (s.position.map (·.1)).Nodup
  mem_keys : ∀ v, v ∈ s.position.map (·.1) ↔ v ∈ s.path
  position : ∀ i v, s.path.reverse[i]? = some v → s.positionOf? v = some i
  successors_visited : ∀ v ∈ s.visited, v ∉ s.path → ∀ w ∈ g.successors v, w ∈ s.visited

/-- Nothing is on the path, and nothing pending. -/
structure AtRest (s : State ν) : Prop where
  path : s.path = []
  pending : s.pending = []
  onPath : s.onPath = []
  position : s.position = []

variable {g : Digraph ν} {label : ν → String} {order done : List ν} {s : State ν}

/-! ## What follows of a consistent state -/

namespace Consistent

theorem exists_position (h : Consistent g s) {v : ν} (hv : v ∈ s.path) :
    ∃ i, s.positionOf? v = some i := by
  obtain ⟨i, hi⟩ := List.mem_iff_getElem?.mp (List.mem_reverse.mpr hv)
  exact ⟨i, h.position i v hi⟩

/-- The end of the path can be left: there is one, and it has a position. -/
theorem exists_leave (h : Consistent g s) (hpath : s.path ≠ []) (pending : List (List ν)) :
    ∃ t, s.leave? pending = some t := by
  obtain ⟨u, path, hu⟩ := List.exists_cons_of_ne_nil hpath
  obtain ⟨i, hi⟩ := h.exists_position (v := u) (by simp [hu])
  simp [State.leave?, hu, hi]

/-- The cycle that a successor on the path closes can be looked at. -/
theorem exists_close (h : Consistent g s) (label : ν → String) {v : ν} (hv : v ∈ s.onPath)
    (pending : List (List ν)) : ∃ t, s.close? label v pending = some t := by
  obtain ⟨i, hi⟩ := h.exists_position ((h.mem_onPath v).mp hv)
  simp only [State.close?, hi]
  split <;> exact ⟨_, rfl⟩

/-- While something is pending a step does not fail. -/
theorem exists_step (h : Consistent g s) (label : ν → String) (hpending : s.pending ≠ []) :
    ∃ t, step g label s = some t := by
  obtain ⟨more, rest, hmore⟩ := List.exists_cons_of_ne_nil hpending
  have hpath : s.path ≠ [] := by
    rintro hnil
    have hlength := h.length_pending
    rw [hmore, hnil] at hlength
    cases hlength
  rw [step, hmore]
  cases more with
  | nil => exact h.exists_leave hpath rest
  | cons v more =>
    dsimp only
    split
    · exact ⟨_, rfl⟩
    · split
      · rename_i hv
        exact h.exists_close label hv (more :: rest)
      · exact ⟨_, rfl⟩

/-- With nothing pending the path has been left altogether. -/
theorem atRest (h : Consistent g s) (hpending : s.pending = []) : AtRest s := by
  have hpath : s.path = [] := by
    have hlength := h.length_pending
    rw [hpending] at hlength
    exact List.length_eq_zero_iff.mp hlength.symm
  have honPath : s.onPath = [] := by
    refine List.eq_nil_iff_forall_not_mem.mpr fun v hv => ?_
    rw [h.mem_onPath, hpath] at hv
    cases hv
  have hkeys : s.position.map (·.1) = [] := by
    refine List.eq_nil_iff_forall_not_mem.mpr fun v hv => ?_
    rw [h.mem_keys, hpath] at hv
    cases hv
  exact ⟨hpath, hpending, honPath, List.map_eq_nil_iff.mp hkeys⟩

end Consistent

/-! ## The parts of a state -/

omit [DecidableEq ν] in
theorem Frames.length_eq {next : ν → List ν} {ok : ν → ν → Prop} {child : Option ν}
    {path : List ν} {pending : List (List ν)} (h : Frames next ok child path pending) :
    pending.length = path.length := by
  induction h with
  | nil => rfl
  | cons looked split hchild hok below ih => rw [List.length_cons, List.length_cons, ih]

theorem Aligned.isChain_reverse (h : Aligned g s) : s.path.reverse.IsChain g.Adj :=
  List.isChain_reverse.mpr h.frames.isChain

/-- Positions are counted from the start of the path. -/
theorem Aligned.positionOf?_of_getElem? (h : Aligned g s) {i : Nat} {v : ν}
    (hv : s.path.reverse[i]? = some v) : s.positionOf? v = some i := by
  obtain ⟨hlt, hget⟩ := List.getElem?_eq_some_iff.mp hv
  have hsplit : s.path.reverse
      = s.path.reverse.take i ++ v :: s.path.reverse.drop (i + 1) := by
    rw [← hget, List.getElem_cons_drop, List.take_append_drop]
  have hpath : s.path
      = (s.path.reverse.drop (i + 1)).reverse ++ v :: (s.path.reverse.take i).reverse := by
    have hreverse := congrArg List.reverse hsplit
    rwa [List.reverse_reverse, List.reverse_append, List.reverse_cons, List.append_assoc,
      List.singleton_append] at hreverse
  rw [positionOf?_eq h _ _ hpath, List.length_reverse, List.length_take_of_le hlt.le]

theorem Aligned.atRest (h : Aligned g s) (hpath : s.path = []) : AtRest s :=
  ⟨hpath, h.pending_eq_nil hpath, by rw [h.onPath, hpath], by rw [h.position, hpath, places]⟩

/-- A node that was visited and is not on the path any more was finished after its successors. -/
theorem Covered.successors_visited (h : Covered g label order s done) {v w : ν}
    (hv : v ∈ s.visited) (hleft : v ∉ s.path) (hw : w ∈ g.successors v) : w ∈ s.visited := by
  have hdone : v ∈ done := ((h.visited v).mp hv).resolve_left hleft
  rcases h.settled.excused_or_mem hdone hw with hclosed | hmem
  · exact hclosed.mem_visited
  · exact (h.visited w).mpr (Or.inr hmem)

theorem consistent_of_covered (ha : Aligned g s) (hc : Covered g label order s done) :
    Consistent g s where
  length_pending := ha.frames.length_eq
  nodup_path := ha.nodup
  walk := ha.isChain_reverse
  mem_onPath v := by rw [ha.onPath]
  onPath_subset v hv := ha.visited v (ha.onPath ▸ hv)
  nodup_keys := by
    rw [ha.position, map_fst_places]
    exact ha.nodup
  mem_keys v := by rw [ha.position, map_fst_places]
  position _ _ := ha.positionOf?_of_getElem?
  successors_visited _ hv hleft _ := hc.successors_visited hv hleft

/-! ## All rounds -/

theorem Underway.exists_covered (h : Underway g label order s) :
    Aligned g s ∧ ∃ done, Covered g label order s done := by
  refine h.invariant (fun s => ∃ done, Covered g label order s done) ⟨[], covered_initial⟩ ?_ ?_
  · rintro s root ha hpath ⟨done, hc⟩ hroot hnode hfresh
    exact ⟨done, hc.enter ha hpath hroot hnode hfresh⟩
  · rintro s t ha ⟨done, hc⟩ hm
    exact hm.covered ha hc

/-- Between two starting points the search is at rest. -/
theorem exists_searchFrom_atRest (g : Digraph ν) (label : ν → String) (before : List ν) (root : ν) :
    ∃ s t, search g label before = some s ∧ AtRest s ∧ searchFrom g label s root = some t
      ∧ AtRest t := by
  obtain ⟨s, hsearch, hs, hpath, _⟩ :=
    foldlM_searchFrom_eq_explore label before (aligned_initial g) rfl
  obtain ⟨t, hfrom, ht, htpath, _⟩ := searchFrom_eq_explore label root hs hpath
  exact ⟨s, t, hsearch, hs.atRest hpath, hfrom, ht.atRest htpath⟩

/-- In every state that the search passes the parts are consistent. While something is pending
there a step does not fail: what it takes off the path is there, and what it looks up has a
position. Once nothing is pending the search is at rest, and it comes to that after each of the
starting points. -/
theorem consistent_rounds (g : Digraph ν) (label : ν → String) (order : Option (List ν)) :
    (∀ s, Underway g label (order.getD g.nodes) s → Consistent g s
        ∧ (s.pending ≠ [] → ∃ t, step g label s = some t) ∧ (s.pending = [] → AtRest s))
      ∧ ∀ before root after, order.getD g.nodes = before ++ root :: after →
        ∃ s t, search g label before = some s ∧ AtRest s ∧ searchFrom g label s root = some t
          ∧ AtRest t := by
  refine ⟨fun s hs => ?_, fun before root _ _ => exists_searchFrom_atRest g label before root⟩
  obtain ⟨ha, done, hc⟩ := hs.exists_covered
  have hconsistent : Consistent g s := consistent_of_covered ha hc
  exact ⟨hconsistent, hconsistent.exists_step label, hconsistent.atRest⟩

end RepoSurvey.CycleSearch
