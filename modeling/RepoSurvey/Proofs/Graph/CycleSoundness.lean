import Mathlib.Data.List.Perm.Subperm
import RepoSurvey.Proofs.Graph.SearchInvariant

/-!
# Reported cycles are cycles

* `closingEdge?`: the edge that leads from the end of a cycle back to its start;
* `CycleSearch.Examined`: an edge that the search has looked at;
* `CycleSearch.Reports`: what holds of the cycles found so far, whose closing edges were looked at;
* `CycleSearch.Move.reports`: a move keeps it;
* `Digraph.cycles_sound`: every cycle found is a cycle of the graph, and no two of them have one
  key or one closing edge.
-/

namespace RepoSurvey

/-- The edge from the end of a cycle back to its start. -/
def closingEdge? {ν : Type} (c : List ν) : Option (ν × ν) :=
  c.getLast?.bind fun last => c.head?.map fun first => (last, first)

namespace CycleSearch

variable {ν : Type} [DecidableEq ν] {g : Digraph ν} {label : ν → String} {s t : State ν}

/-! ## The cycle that a move reports -/

section Reported

variable {front back path : List ν} {u v : ν}

omit [DecidableEq ν] in
/-- Its last member is the end of the path. -/
theorem getLast?_reported (h : front ++ v :: back = u :: path) :
    (v :: front.reverse).getLast? = some u := by
  cases front with
  | nil =>
    obtain ⟨rfl, _⟩ := List.cons.inj h
    rfl
  | cons w front =>
    obtain ⟨rfl, _⟩ := List.cons.inj h
    rw [List.reverse_cons, ← List.cons_append, List.getLast?_append]
    rfl

omit [DecidableEq ν] in
theorem closingEdge?_reported (h : front ++ v :: back = u :: path) :
    closingEdge? (v :: front.reverse) = some (u, v) := by
  rw [closingEdge?, getLast?_reported h]
  rfl

theorem isChain_reported (h : Aligned g s) (hpath : s.path = front ++ v :: back) :
    (v :: front.reverse).IsChain g.Adj := by
  have hchain := h.frames.isChain
  rw [hpath] at hchain
  have hfront : (front ++ [v]).IsChain (fun a b => g.Adj b a) :=
    hchain.prefix ⟨back, by simp⟩
  have hreverse := List.isChain_reverse.mpr hfront
  rwa [List.reverse_append] at hreverse

theorem nodup_reported (h : Aligned g s) (hpath : s.path = front ++ v :: back) :
    (v :: front.reverse).Nodup := by
  have hnodup := h.nodup
  rw [hpath, List.append_cons, List.nodup_append] at hnodup
  have hreverse := List.nodup_reverse.mpr hnodup.1
  rwa [List.reverse_append] at hreverse

omit [DecidableEq ν] in
theorem mem_path_of_mem_reported (hpath : s.path = front ++ v :: back) {x : ν}
    (hx : x ∈ v :: front.reverse) : x ∈ s.path := by
  rw [hpath]
  rcases List.mem_cons.mp hx with rfl | hx
  · exact List.mem_append_right _ List.mem_cons_self
  · exact List.mem_append_left _ (List.mem_reverse.mp hx)

/-- The path from the successor `v` up to its predecessor `u`, closed by the edge between them,
is a cycle. -/
theorem cycle_reported (h : Aligned g s) (hpath : s.path = front ++ v :: back)
    (hend : front ++ v :: back = u :: path) (huv : g.Adj u v) :
    Cycle g.Adj (v :: front.reverse) := by
  refine ⟨(closedWalk_iff_isChain v front.reverse).mpr ?_, nodup_reported h hpath⟩
  rw [← List.cons_append]
  refine List.isChain_append.mpr ⟨isChain_reported h hpath, .singleton v, ?_⟩
  intro x hx y hy
  rw [getLast?_reported hend] at hx
  cases hx
  cases hy
  exact huv

end Reported

/-! ## Edges looked at -/

/-- The search has looked at the edge from `u` to `w`. -/
structure Examined (g : Digraph ν) (s : State ν) (u w : ν) : Prop where
  adj : g.Adj u w
  visited : u ∈ s.visited
  looked : ∀ more, (u, more) ∈ s.path.zip s.pending → w ∉ more

/-- An edge that was looked at stays so when the next one is. -/
theorem Examined.look {u v x y : ν} {path more : List ν} {pending : List (List ν)}
    (hpath : s.path = u :: path) (hpending : s.pending = (v :: more) :: pending)
    (h : Examined g s x y) (seen : List String) (found : List (List ν)) :
    Examined g { s with pending := more :: pending, seen := seen, found := found } x y := by
  refine ⟨h.adj, h.visited, fun m hm => ?_⟩
  have hlooked := h.looked
  rw [hpath, hpending, List.zip_cons_cons] at hlooked
  simp only [hpath, List.zip_cons_cons, List.mem_cons] at hm
  rcases hm with hm | hm
  · cases hm
    exact fun hy => hlooked _ List.mem_cons_self (List.mem_cons_of_mem _ hy)
  · exact hlooked m (List.mem_cons_of_mem _ hm)

theorem Move.examined (hm : Move g label s t) {x y : ν} (h : Examined g s x y) :
    Examined g t x y := by
  cases hm with
  | leave hpath hpending =>
    refine ⟨h.adj, h.visited, fun m hm => h.looked m ?_⟩
    rw [hpath, hpending, List.zip_cons_cons]
    exact List.mem_cons_of_mem _ hm
  | @enter u v path more pending hpath hpending hv =>
    have hlook := h.look hpath hpending s.seen s.found
    refine ⟨h.adj, List.mem_cons_of_mem _ h.visited, fun m hm => ?_⟩
    simp only [State.enter, List.zip_cons_cons, List.mem_cons] at hm
    rcases hm with hm | hm
    · cases hm
      exact absurd h.visited hv
    · exact hlook.looked m hm
  | report hpath hpending =>
    obtain ⟨u, rest, hu⟩ := exists_end hpath
    exact h.look hu hpending _ _
  | known hpath hpending =>
    obtain ⟨u, rest, hu⟩ := exists_end hpath
    exact h.look hu hpending _ _
  | pass hpath hpending => exact h.look hpath hpending _ _

section Edge

variable {u v : ν} {path more : List ν} {pending : List (List ν)}

/-- A pending edge was not looked at. -/
theorem not_examined_of_pending (hpath : s.path = u :: path)
    (hpending : s.pending = (v :: more) :: pending) : ¬ Examined g s u v := by
  intro h
  refine h.looked (v :: more) ?_ List.mem_cons_self
  rw [hpath, hpending, List.zip_cons_cons]
  exact List.mem_cons_self

/-- Once it is not pending any more, it is looked at. -/
theorem examined_after_look (h : Aligned g s) (hpath : s.path = u :: path)
    (hpending : s.pending = (v :: more) :: pending) {seen : List String} {found : List (List ν)} :
    Examined g { s with pending := more :: pending, seen := seen, found := found } u v := by
  refine ⟨h.mem_successors hpath hpending, h.visited u (by simp [hpath]), fun m hm => ?_⟩
  have hnodup := h.nodup
  rw [hpath] at hnodup
  simp only [hpath, List.zip_cons_cons, List.mem_cons] at hm
  rcases hm with hm | hm
  · cases hm
    have hframes := h.frames
    rw [hpath, hpending] at hframes
    cases hframes with
    | cons looked split _ _ _ =>
      have hsuccessors := g.nodup_successors_node u
      rw [split, List.nodup_append] at hsuccessors
      exact (List.nodup_cons.mp hsuccessors.2.1).1
  · exact absurd (List.of_mem_zip hm).1 (List.nodup_cons.mp hnodup).1

end Edge

/-! ## What holds of the cycles found -/

/-- The cycles found so far are cycles of visited nodes, their keys are the keys seen, and no two
of them have one key or one closing edge. -/
structure Reports (g : Digraph ν) (label : ν → String) (s : State ν) : Prop where
  cycle : ∀ c ∈ s.found, Cycle g.Adj c
  visited : ∀ c ∈ s.found, ∀ v ∈ c, v ∈ s.visited
  keys : s.found.map (key label) = s.seen.reverse
  nodup_keys : s.seen.Nodup
  nodup_edges : (s.found.map closingEdge?).Nodup
  examined : ∀ c ∈ s.found, ∃ e, closingEdge? c = some e ∧ Examined g s e.1 e.2

theorem reports_initial : Reports g label State.initial := by
  constructor <;> simp [State.initial]

/-- Nothing is found where the cycles stay the same. -/
theorem Reports.of_found_eq (h : Reports g label s) (hfound : t.found = s.found)
    (hseen : t.seen = s.seen) (hvisited : s.visited ⊆ t.visited)
    (hexamined : ∀ u v, Examined g s u v → Examined g t u v) : Reports g label t := by
  refine ⟨?_, ?_, ?_, ?_, ?_, ?_⟩
  · rw [hfound]
    exact h.cycle
  · rw [hfound]
    exact fun c hc v hv => hvisited (h.visited c hc v hv)
  · rw [hfound, hseen]
    exact h.keys
  · rw [hseen]
    exact h.nodup_keys
  · rw [hfound]
    exact h.nodup_edges
  · rw [hfound]
    intro c hc
    obtain ⟨e, he, hex⟩ := h.examined c hc
    exact ⟨e, he, hexamined _ _ hex⟩

theorem Move.reports (hm : Move g label s t) (ha : Aligned g s) (h : Reports g label s) :
    Reports g label t := by
  have hvisited := hm.visited_subset
  have hexamined : ∀ x y, Examined g s x y → Examined g t x y := fun x y => hm.examined
  cases hm with
  | leave => exact h.of_found_eq rfl rfl hvisited hexamined
  | enter => exact h.of_found_eq rfl rfl hvisited hexamined
  | known => exact h.of_found_eq rfl rfl hvisited hexamined
  | pass => exact h.of_found_eq rfl rfl hvisited hexamined
  | @report v front back more pending hpath hpending hnew =>
    obtain ⟨u, rest, hu⟩ := exists_end hpath
    have hend : front ++ v :: back = u :: rest := hpath.symm.trans hu
    have huv : g.Adj u v := ha.mem_successors hu hpending
    have hclosing : closingEdge? (v :: front.reverse) = some (u, v) := closingEdge?_reported hend
    refine ⟨?_, ?_, ?_, ?_, ?_, ?_⟩
    · intro c hc
      rcases List.mem_append.mp hc with hc | hc
      · exact h.cycle c hc
      · rw [List.mem_singleton.mp hc]
        exact cycle_reported ha hpath hend huv
    · intro c hc x hx
      rcases List.mem_append.mp hc with hc | hc
      · exact h.visited c hc x hx
      · rw [List.mem_singleton.mp hc] at hx
        exact ha.visited x (mem_path_of_mem_reported hpath hx)
    · simp [h.keys]
    · exact List.nodup_cons.mpr ⟨hnew, h.nodup_keys⟩
    · rw [List.map_append, List.nodup_append]
      refine ⟨h.nodup_edges, by simp, ?_⟩
      intro a hfound b hb
      rw [List.map_singleton, List.mem_singleton, hclosing] at hb
      obtain ⟨c, hc, rfl⟩ := List.mem_map.mp hfound
      obtain ⟨e, he, hex⟩ := h.examined c hc
      rw [he, hb]
      intro heq
      cases heq
      exact not_examined_of_pending hu hpending hex
    · intro c hc
      rcases List.mem_append.mp hc with hc | hc
      · obtain ⟨e, he, hex⟩ := h.examined c hc
        exact ⟨e, he, hexamined _ _ hex⟩
      · rw [List.mem_singleton.mp hc]
        exact ⟨(u, v), hclosing, examined_after_look ha hu hpending⟩

/-- Entering a starting point finds nothing. -/
theorem Reports.enter (h : Reports g label s) (hpath : s.path = []) {root : ν}
    (hfresh : root ∉ s.visited) : Reports g label (s.enter g root) := by
  refine h.of_found_eq rfl rfl (List.subset_cons_self _ _) fun x y hex => ?_
  refine ⟨hex.adj, List.mem_cons_of_mem _ hex.visited, fun m hm => ?_⟩
  simp only [State.enter, hpath, List.zip_cons_cons, List.zip_nil_left, List.mem_singleton] at hm
  cases hm
  exact absurd hex.visited hfresh

/-- The cycles found are those of a state in which nothing is pending. -/
theorem exists_reports (g : Digraph ν) (label : ν → String) (order : Option (List ν)) :
    ∃ s, g.cycles label order = s.found ∧ Aligned g s ∧ Reports g label s := by
  obtain ⟨s, hsearch, ha, _, hr, _⟩ :=
    search_induction (Reports g label) (order.getD g.nodes) reports_initial
      (fun s root _ hpath h _ _ hfresh => h.enter hpath hfresh) (fun s t ha h hm => hm.reports ha h)
  exact ⟨s, by simp [Digraph.cycles, hsearch], ha, hr⟩

end CycleSearch

section Sound

variable {ν : Type} [DecidableEq ν] {g : Digraph ν} {label : ν → String}
  {order : Option (List ν)}

theorem Digraph.cycle_of_mem_cycles {c : List ν} (hc : c ∈ g.cycles label order) :
    Cycle g.Adj c := by
  obtain ⟨s, hfound, _, hr⟩ := CycleSearch.exists_reports g label order
  exact hr.cycle c (hfound ▸ hc)

/-- No cycle is found twice. -/
theorem Digraph.nodup_cycles (g : Digraph ν) (label : ν → String) (order : Option (List ν)) :
    (g.cycles label order).Nodup := by
  obtain ⟨s, hfound, _, hr⟩ := CycleSearch.exists_reports g label order
  have hedges : ((g.cycles label order).map closingEdge?).Nodup := hfound ▸ hr.nodup_edges
  exact hedges.of_map

/-- There are no more cycles than edges, as each of them has a closing edge of its own. -/
theorem Digraph.length_cycles_le (hnodup : ((g.cycles label order).map closingEdge?).Nodup) :
    (g.cycles label order).length ≤ g.edges.length := by
  have hsub : (g.cycles label order).map closingEdge? ⊆ g.edges.map some := by
    intro a ha
    obtain ⟨c, hc, rfl⟩ := List.mem_map.mp ha
    obtain ⟨s, hfound, _, hr⟩ := CycleSearch.exists_reports g label order
    obtain ⟨e, he, hex⟩ := hr.examined c (hfound ▸ hc)
    rw [he]
    exact List.mem_map_of_mem (Digraph.mem_edges.mpr hex.adj)
  have hlength := (List.subperm_of_subset hnodup hsub).length_le
  rwa [List.length_map, List.length_map] at hlength

/-- Every cycle found is a cycle of the graph. No two of them have the same key or the same edge
from the end back to the start, so there are no more of them than edges. -/
theorem Digraph.cycles_sound (g : Digraph ν) (label : ν → String) (order : Option (List ν)) :
    (∀ c ∈ g.cycles label order, Cycle g.Adj c ∧ ∀ v ∈ c, v ∈ g.nodes)
      ∧ ((g.cycles label order).map (CycleSearch.key label)).Nodup
      ∧ ((g.cycles label order).map closingEdge?).Nodup
      ∧ (g.cycles label order).length ≤ g.edges.length := by
  obtain ⟨s, hfound, ha, hr⟩ := CycleSearch.exists_reports g label order
  have hedges : ((g.cycles label order).map closingEdge?).Nodup := hfound ▸ hr.nodup_edges
  refine ⟨fun c hc => ⟨Digraph.cycle_of_mem_cycles hc, fun v hv => ?_⟩, ?_, hedges,
    Digraph.length_cycles_le hedges⟩
  · exact ha.nodes v (hr.visited c (hfound ▸ hc) v hv)
  · rw [hfound, hr.keys]
    exact List.nodup_reverse.mpr hr.nodup_keys

end Sound

end RepoSurvey
