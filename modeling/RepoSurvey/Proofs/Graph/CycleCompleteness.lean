import RepoSurvey.Proofs.Graph.CycleSoundness

/-!
# No cycle stays unreported

Nodes are finished in an order. An edge from a node that is finished leads to a node finished
before it, unless it leads to a node that was on the path: then the path between the two was
reported, or had the key of a cycle reported before. A closed walk cannot lead to earlier and
earlier nodes only.

* `CycleSearch.Closed`: the path from the end of an edge to its source has a key that was seen;
* `CycleSearch.Covered`: what holds of the nodes visited so far, given those finished;
* `CycleSearch.Move.covered`: a move keeps it;
* `Digraph.cycles_complete`: a closed walk that can be reached has an edge whose path back has the
  key of a cycle found; nothing is found exactly where there is no cycle to be reached.
-/

namespace RepoSurvey

/-- A node can be reached from one of the starting points that are nodes. -/
def Digraph.ReachedFrom {ν : Type} [DecidableEq ν] (g : Digraph ν) (order : List ν) (v : ν) :
    Prop :=
  ∃ root ∈ order, root ∈ g.nodes ∧ Relation.ReflTransGen g.Adj root v

namespace CycleSearch

variable {ν : Type} [DecidableEq ν]

/-- The edge from `u` to the visited node `v` closes a path whose key was seen. -/
structure Closed (g : Digraph ν) (label : ν → String) (visited : List ν) (seen : List String)
    (u v : ν) : Prop where
  mem_visited : v ∈ visited
  path : ∃ p, SimplePath g.Adj v u p ∧ key label p ∈ seen

/-- The nodes visited are those of the path and those in `done`, the last finished first. All of
them can be reached, and each edge looked at closes a path or leads to a finished node or along
the path; an edge from a finished node leads to a node finished before, if it closes no path. -/
structure Covered (g : Digraph ν) (label : ν → String) (order : List ν) (s : State ν)
    (done : List ν) : Prop where
  visited : ∀ v, v ∈ s.visited ↔ v ∈ s.path ∨ v ∈ done
  nodup : done.Nodup
  apart : ∀ v ∈ s.path, v ∉ done
  reached : ∀ v ∈ s.visited, g.ReachedFrom order v
  frames : Frames g.successors (fun u v => Closed g label s.visited s.seen u v ∨ v ∈ done) none
    s.path s.pending
  settled : Settled g.successors (Closed g label s.visited s.seen) done

variable {g : Digraph ν} {label : ν → String} {order done : List ν} {s t : State ν}

theorem covered_initial : Covered g label order State.initial [] :=
  ⟨by simp [State.initial], List.nodup_nil, by simp, by simp [State.initial], .nil none, trivial⟩

theorem Closed.mono {visited visited' : List ν} {seen seen' : List String} {u v : ν}
    (h : Closed g label visited seen u v) (hvisited : visited ⊆ visited') (hseen : seen ⊆ seen') :
    Closed g label visited' seen' u v := by
  obtain ⟨p, hp, hkey⟩ := h.path
  exact ⟨hvisited h.mem_visited, p, hp, hseen hkey⟩

/-- The path from a successor on the path up to its predecessor. -/
theorem simplePath_reported (h : Aligned g s) {front back path : List ν} {u v : ν}
    (hpath : s.path = front ++ v :: back) (hend : front ++ v :: back = u :: path) :
    SimplePath g.Adj v u (v :: front.reverse) :=
  ⟨rfl, getLast?_reported hend, nodup_reported h hpath, isChain_reported h hpath⟩

theorem Covered.reached_successor (h : Covered g label order s done) (ha : Aligned g s) {u v : ν}
    {path more : List ν} {pending : List (List ν)} (hpath : s.path = u :: path)
    (hpending : s.pending = (v :: more) :: pending) : g.ReachedFrom order v := by
  have hu : u ∈ s.visited := ha.visited u (by simp [hpath])
  obtain ⟨root, hroot, hnode, hsteps⟩ := h.reached u hu
  exact ⟨root, hroot, hnode, hsteps.tail (ha.mem_successors hpath hpending)⟩

/-- Looking at a successor that closes a path or is finished keeps the nodes covered. -/
theorem Covered.look (h : Covered g label order s done) {u v : ν} {path more : List ν}
    {pending : List (List ν)} {seen : List String} {found : List (List ν)}
    (hpath : s.path = u :: path) (hpending : s.pending = (v :: more) :: pending)
    (hseen : s.seen ⊆ seen) (hv : Closed g label s.visited seen u v ∨ v ∈ done) :
    Covered g label order { s with pending := more :: pending, seen := seen, found := found }
      done := by
  have hmono : ∀ a b, Closed g label s.visited s.seen a b → Closed g label s.visited seen a b :=
    fun a b hab => hab.mono (List.Subset.refl _) hseen
  refine ⟨h.visited, h.nodup, h.apart, h.reached, ?_, h.settled.mono hmono⟩
  have hframes := h.frames.mono fun a b => Or.imp_left (hmono a b)
  rw [hpath, hpending] at hframes
  show Frames _ _ _ s.path _
  rw [hpath]
  exact hframes.look hv

/-- The end of the path is finished after all its successors. -/
theorem Covered.leave (h : Covered g label order s done) (ha : Aligned g s) {u : ν} {path : List ν}
    {pending : List (List ν)} (hpath : s.path = u :: path) (hpending : s.pending = [] :: pending) :
    Covered g label order { s with
      path := path, onPath := path, position := places path, pending := pending } (u :: done) := by
  have hframes := h.frames
  have hvisited := h.visited
  have hapart := h.apart
  have hnodup := ha.nodup
  rw [hpath, hpending] at hframes
  rw [hpath] at hvisited hapart hnodup
  have hu : u ∉ path := (List.nodup_cons.mp hnodup).1
  refine ⟨fun v => ?_, ?_, fun v hv => ?_, h.reached, ?_, ?_, h.settled⟩
  · rw [hvisited v, List.mem_cons, List.mem_cons, or_assoc, or_left_comm]
  · exact List.nodup_cons.mpr ⟨hapart u List.mem_cons_self, h.nodup⟩
  · intro hmem
    rcases List.mem_cons.mp hmem with rfl | hmem
    · exact hu hv
    · exact hapart v (List.mem_cons_of_mem _ hv) hmem
  · have hmono := hframes.mono fun a b => Or.imp_right (List.mem_cons_of_mem u)
    exact hmono.pop fun p => Or.inr List.mem_cons_self
  · intro v hv
    cases hframes with
    | cons looked split _ hok _ =>
      rw [split, List.append_nil] at hv
      rcases hok v hv with hok | hchild
      · exact hok
      · cases hchild

/-- A node that was not visited becomes the end of the path. -/
theorem Covered.extend (h : Covered g label order s done) {v : ν} (hv : v ∉ s.visited)
    (hreached : g.ReachedFrom order v) {path : List ν} {pending : List (List ν)}
    (hpath : path = v :: s.path)
    (hframes : Frames g.successors (fun a b => Closed g label s.visited s.seen a b ∨ b ∈ done) none
      path pending) {onPath : List ν} {position : List (ν × Nat)} :
    Covered g label order { s with
      visited := v :: s.visited, onPath := onPath, path := path, position := position,
      pending := pending } done := by
  have hmono : ∀ a b, Closed g label s.visited s.seen a b →
      Closed g label (v :: s.visited) s.seen a b :=
    fun a b hab => hab.mono (List.subset_cons_self _ _) (List.Subset.refl _)
  subst hpath
  refine ⟨fun x => ?_, h.nodup, fun x hx hmem => ?_, fun x hx => ?_,
    hframes.mono fun a b => Or.imp_left (hmono a b), h.settled.mono hmono⟩
  · rw [List.mem_cons, h.visited x, List.mem_cons, or_assoc]
  · rcases List.mem_cons.mp hx with rfl | hx
    · exact hv ((h.visited x).mpr (Or.inr hmem))
    · exact h.apart x hx hmem
  · rcases List.mem_cons.mp hx with rfl | hx
    · exact hreached
    · exact h.reached x hx

theorem Move.covered (hm : Move g label s t) (ha : Aligned g s)
    (h : Covered g label order s done) : ∃ done', Covered g label order t done' := by
  cases hm with
  | @leave u path pending hpath hpending => exact ⟨u :: done, h.leave ha hpath hpending⟩
  | @enter u v path more pending hpath hpending hv =>
    have hframes := h.frames
    rw [hpath, hpending] at hframes
    refine ⟨done, h.extend hv (h.reached_successor ha hpath hpending) rfl ?_⟩
    rw [hpath]
    exact hframes.push
  | @report v front back more pending hpath hpending hnew =>
    obtain ⟨u, rest, hu⟩ := exists_end hpath
    refine ⟨done, h.look hu hpending (List.subset_cons_self _ _) (Or.inl ⟨?_, ?_⟩)⟩
    · exact ha.visited v (by simp [hpath])
    · exact ⟨_, simplePath_reported ha hpath (hpath.symm.trans hu), List.mem_cons_self⟩
  | @known v front back more pending hpath hpending hseen =>
    obtain ⟨u, rest, hu⟩ := exists_end hpath
    refine ⟨done, h.look hu hpending (List.Subset.refl _) (Or.inl ⟨?_, ?_⟩)⟩
    · exact ha.visited v (by simp [hpath])
    · exact ⟨_, simplePath_reported ha hpath (hpath.symm.trans hu), hseen⟩
  | @pass u v path more pending hpath hpending hv hleft =>
    have hdone : v ∈ done := ((h.visited v).mp hv).resolve_left hleft
    exact ⟨done, h.look hpath hpending (List.Subset.refl _) (Or.inr hdone)⟩

theorem Covered.enter (h : Covered g label order s done) (ha : Aligned g s) (hpath : s.path = [])
    {root : ν} (hroot : root ∈ order) (hnode : root ∈ g.nodes) (hfresh : root ∉ s.visited) :
    Covered g label order (s.enter g root) done := by
  refine h.extend hfresh ⟨root, hroot, hnode, .refl⟩ rfl ?_
  rw [hpath, ha.pending_eq_nil hpath]
  exact .cons [] rfl (by simp) (by simp) (.nil _)

/-- The search ends with every starting point visited and every visited node finished. -/
theorem exists_covered (g : Digraph ν) (label : ν → String) (order : Option (List ν)) :
    ∃ s done, g.cycles label order = s.found ∧ Reports g label s
      ∧ Covered g label (order.getD g.nodes) s done ∧ (∀ v, v ∈ s.visited ↔ v ∈ done)
      ∧ ∀ root ∈ order.getD g.nodes, root ∈ g.nodes → root ∈ s.visited := by
  let P := fun s => Reports g label s ∧ ∃ done, Covered g label (order.getD g.nodes) s done
  have hsearch : ∃ s, search g label (order.getD g.nodes) = some s ∧ Aligned g s ∧ s.path = []
      ∧ P s ∧ ∀ root ∈ order.getD g.nodes, root ∈ g.nodes → root ∈ s.visited := by
    refine search_induction P (order.getD g.nodes) ⟨reports_initial, [], covered_initial⟩ ?_ ?_
    · rintro s root ha hpath ⟨hr, done, hc⟩ hroot hnode hfresh
      exact ⟨hr.enter hpath hfresh, done, hc.enter ha hpath hroot hnode hfresh⟩
    · rintro s t ha ⟨hr, done, hc⟩ hm
      exact ⟨hm.reports ha hr, hm.covered ha hc⟩
  obtain ⟨s, hs, _, hpath, ⟨hr, done, hc⟩, hroots⟩ := hsearch
  refine ⟨s, done, by simp [Digraph.cycles, hs], hr, hc, fun v => ?_, hroots⟩
  have hvisited := hc.visited v
  rw [hpath] at hvisited
  simpa using hvisited

/-- Whatever can be reached is finished in the end. -/
theorem Covered.mem_done (h : Covered g label order s done)
    (hdone : ∀ v, v ∈ s.visited ↔ v ∈ done)
    (hroots : ∀ root ∈ order, root ∈ g.nodes → root ∈ s.visited) {v : ν}
    (hv : g.ReachedFrom order v) : v ∈ done := by
  obtain ⟨root, hroot, hnode, hsteps⟩ := hv
  induction hsteps with
  | refl => exact (hdone root).mp (hroots root hroot hnode)
  | tail _ hstep ih =>
    rcases h.settled.excused_or_mem ih hstep with hclosed | hmem
    · exact (hdone _).mp hclosed.mem_visited
    · exact hmem

end CycleSearch

section Complete

variable {ν : Type} [DecidableEq ν]

theorem Digraph.exists_cycle_of_closedWalk (g : Digraph ν) (label : ν → String)
    (order : Option (List ν)) {w : List ν} (hw : ClosedWalk g.Adj w)
    (hreached : ∀ v ∈ w, g.ReachedFrom (order.getD g.nodes) v) :
    ∃ e ∈ closedSteps w, ∃ p, SimplePath g.Adj e.2 e.1 p
      ∧ ∃ c ∈ g.cycles label order, CycleSearch.key label c = CycleSearch.key label p := by
  obtain ⟨s, done, hfound, hr, hc, hdone, hroots⟩ := CycleSearch.exists_covered g label order
  obtain ⟨e, he, hclosed⟩ := exists_step_of_settled hc.settled hc.nodup hw fun v hv =>
    hc.mem_done hdone hroots (hreached v hv)
  obtain ⟨p, hp, hkey⟩ := hclosed.path
  have hmem : CycleSearch.key label p ∈ s.found.map (CycleSearch.key label) := by
    rw [hr.keys]
    exact List.mem_reverse.mpr hkey
  obtain ⟨c, hcmem, hckey⟩ := List.mem_map.mp hmem
  exact ⟨e, he, p, hp, c, hfound ▸ hcmem, hckey⟩

theorem Digraph.reachedFrom_of_mem_cycles {g : Digraph ν} {label : ν → String}
    {order : Option (List ν)} {c : List ν} (hc : c ∈ g.cycles label order) {v : ν} (hv : v ∈ c) :
    g.ReachedFrom (order.getD g.nodes) v := by
  obtain ⟨s, done, hfound, hr, hcov, _, _⟩ := CycleSearch.exists_covered g label order
  exact hcov.reached v (hr.visited c (hfound ▸ hc) v hv)

/-- Every node of a closed walk is a node of the graph, from which the walk can be reached. -/
theorem ClosedWalk.reachedFrom_nodes {g : Digraph ν} {w : List ν} (hw : ClosedWalk g.Adj w) :
    ∀ v ∈ w, g.ReachedFrom g.nodes v := by
  intro v hv
  obtain ⟨u, hu⟩ := exists_step_to hv
  have hnode := (hw.steps _ hu).target_mem
  exact ⟨v, hnode, hnode, .refl⟩

theorem Digraph.cycles_eq_nil_iff (g : Digraph ν) (label : ν → String) (order : Option (List ν)) :
    g.cycles label order = []
      ↔ ¬ ∃ c, Cycle g.Adj c ∧ ∀ v ∈ c, g.ReachedFrom (order.getD g.nodes) v := by
  constructor
  · rintro hnil ⟨c, hcycle, hreached⟩
    obtain ⟨_, _, _, _, d, hd, _⟩ :=
      g.exists_cycle_of_closedWalk label order hcycle.toClosedWalk hreached
    rw [hnil] at hd
    exact absurd hd (by simp)
  · intro hno
    refine List.eq_nil_iff_forall_not_mem.mpr fun c hc => hno ⟨c, ?_, fun v hv => ?_⟩
    · exact Digraph.cycle_of_mem_cycles hc
    · exact Digraph.reachedFrom_of_mem_cycles hc hv

/-- Every closed walk that can be reached from the starting points has an edge such that a path
from its end back to its source has the key of a cycle found. So nothing is found exactly where no
cycle can be reached, and with all nodes for starting points exactly where there is no cycle. -/
theorem Digraph.cycles_complete (g : Digraph ν) (label : ν → String) (order : Option (List ν)) :
    (∀ w, ClosedWalk g.Adj w → (∀ v ∈ w, g.ReachedFrom (order.getD g.nodes) v) →
        ∃ e ∈ closedSteps w, ∃ p, SimplePath g.Adj e.2 e.1 p
          ∧ ∃ c ∈ g.cycles label order, CycleSearch.key label c = CycleSearch.key label p)
      ∧ (g.cycles label order = []
          ↔ ¬ ∃ c, Cycle g.Adj c ∧ ∀ v ∈ c, g.ReachedFrom (order.getD g.nodes) v)
      ∧ (g.cycles label none = [] ↔ ¬ ∃ c, Cycle g.Adj c) := by
  refine ⟨fun w hw hreached => g.exists_cycle_of_closedWalk label order hw hreached,
    g.cycles_eq_nil_iff label order, ?_⟩
  rw [g.cycles_eq_nil_iff label none]
  constructor
  · rintro hno ⟨c, hcycle⟩
    exact hno ⟨c, hcycle, hcycle.toClosedWalk.reachedFrom_nodes⟩
  · rintro hno ⟨c, hcycle, _⟩
    exact hno ⟨c, hcycle⟩

end Complete

end RepoSurvey
