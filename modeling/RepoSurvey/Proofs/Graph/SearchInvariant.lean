import RepoSurvey.Graph.CycleSearch
import RepoSurvey.Proofs.Graph.ClosedWalk
import RepoSurvey.Proofs.Graph.Edges

/-!
# The cycle search, step by step

* `CycleSearch.Aligned`: the parts of a state fit together;
* `CycleSearch.Move`: what one step can do to such a state;
* `CycleSearch.exists_move`: an aligned state with something pending makes a move;
* `CycleSearch.Move.aligned`, `CycleSearch.Move.remaining_eq`: a move keeps the state aligned and
  leaves one step fewer;
* `CycleSearch.search_induction`: the search ends, at rest, with every starting point visited and
  with every property that entering a starting point and moving preserve;
* `CycleSearch.Underway`: a state that the search passes; `CycleSearch.Underway.invariant`: it has
  every such property, and `CycleSearch.Underway.found_kept`: what is found in it stays found.
-/

namespace RepoSurvey.CycleSearch

variable {ν : Type}

/-! ## Positions on a path -/

/-- The nodes of a path, its end first, with their distances from its start. -/
def places : List ν → List (ν × Nat)
  | [] => []
  | v :: path => (v, path.length) :: places path

theorem map_fst_places (path : List ν) : (places path).map (·.1) = path := by
  induction path with
  | nil => rfl
  | cons v path ih => simp [places, ih]

theorem find?_places [DecidableEq ν] (front back : List ν) (v : ν) (h : v ∉ front) :
    (places (front ++ v :: back)).find? (fun e => e.1 = v) = some (v, back.length) := by
  induction front with
  | nil => simp [places]
  | cons u front ih =>
    have hne : ¬ u = v := fun e => h (e ▸ List.mem_cons_self)
    have hf : v ∉ front := fun hv => h (List.mem_cons_of_mem u hv)
    simp [places, hne, ih hf]

theorem filter_places [DecidableEq ν] {path : List ν} {v : ν} (h : v ∉ path) :
    (places path).filter (fun e => decide (e.1 ≠ v)) = places path := by
  rw [List.filter_eq_self]
  intro e he
  have hmem : e.1 ∈ path := by
    rw [← map_fst_places path]
    exact List.mem_map_of_mem he
  have hne : e.1 ≠ v := fun e' => h (e' ▸ hmem)
  simp [hne]

/-! ## Aligned states -/

/-- A path, its end first, and the successors still to be looked at of each of its nodes. Those
looked at already are the `child`, which is the next node of the path, and others about which
`ok` holds. -/
inductive Frames (next : ν → List ν) (ok : ν → ν → Prop) :
    Option ν → List ν → List (List ν) → Prop
  | nil (child : Option ν) : Frames next ok child [] []
  | cons {child : Option ν} {u : ν} {path more : List ν} {pending : List (List ν)}
      (looked : List ν) (split : next u = looked ++ more) (hchild : ∀ w ∈ child, w ∈ looked)
      (hok : ∀ w ∈ looked, ok u w ∨ child = some w)
      (below : Frames next ok (some u) path pending) :
      Frames next ok child (u :: path) (more :: pending)

namespace Frames

variable {next : ν → List ν} {ok ok' : ν → ν → Prop} {child : Option ν} {path : List ν}
  {pending : List (List ν)}

theorem mono (h : Frames next ok child path pending) (hok : ∀ u w, ok u w → ok' u w) :
    Frames next ok' child path pending := by
  induction h with
  | nil child => exact .nil child
  | cons looked split hchild hl _ ih =>
    refine .cons looked split hchild (fun w hw => ?_) ih
    rcases hl w hw with h | h
    · exact Or.inl (hok _ w h)
    · exact Or.inr h

/-- The path is a walk, from its last entry to its first. -/
theorem isChain (h : Frames next ok child path pending) :
    path.IsChain (fun v u => v ∈ next u) := by
  induction h with
  | nil => exact .nil
  | @cons child u path more pending looked split hchild hok below ih =>
    cases below with
    | nil => exact .singleton u
    | cons looked' split' hchild' _ _ =>
      refine List.isChain_cons_cons.mpr ⟨?_, ih⟩
      rw [split']
      exact List.mem_append_left _ (hchild' u rfl)

/-- The first of the pending successors is looked at. -/
theorem look {u w : ν} {more : List ν}
    (h : Frames next ok none (u :: path) ((w :: more) :: pending))
    (hw : ok u w) : Frames next ok none (u :: path) (more :: pending) := by
  cases h with
  | cons looked split _ hok below =>
    refine .cons (looked ++ [w]) (by simp [split]) (by simp) (fun x hx => ?_) below
    rcases List.mem_append.mp hx with hx | hx
    · exact hok x hx
    · rw [List.mem_singleton.mp hx]
      exact Or.inl hw

/-- The first of the pending successors becomes the end of the path. -/
theorem push {u w : ν} {more : List ν}
    (h : Frames next ok none (u :: path) ((w :: more) :: pending)) :
    Frames next ok none (w :: u :: path) (next w :: more :: pending) := by
  cases h with
  | cons looked split _ hok below =>
    refine .cons [] rfl (by simp) (by simp)
      (.cons (looked ++ [w]) (by simp [split]) (by simp) ?_ below)
    intro x hx
    rcases List.mem_append.mp hx with hx | hx
    · rcases hok x hx with h | h
      · exact Or.inl h
      · cases h
    · exact Or.inr (by rw [List.mem_singleton.mp hx])

/-- The end of the path, with nothing pending, is left, and then `ok` holds of it. -/
theorem pop {u : ν} {more : List ν} (h : Frames next ok none (u :: path) (more :: pending))
    (hu : ∀ p, ok p u) : Frames next ok none path pending := by
  cases h with
  | cons _ _ _ _ below =>
    cases below with
    | nil => exact .nil none
    | cons looked split _ hok below' =>
      refine .cons looked split (by simp) (fun x hx => Or.inl ?_) below'
      rcases hok x hx with h | h
      · exact h
      · cases h
        exact hu _

end Frames

variable [DecidableEq ν]

/-- The path, the nodes on it, their positions and the pending successors fit together, and only
nodes of the graph are visited. -/
structure Aligned (g : Digraph ν) (s : State ν) : Prop where
  onPath : s.onPath = s.path
  position : s.position = places s.path
  nodup : s.path.Nodup
  visited : ∀ v ∈ s.path, v ∈ s.visited
  nodes : ∀ v ∈ s.visited, v ∈ g.nodes
  frames : Frames g.successors (fun _ _ => True) none s.path s.pending

theorem aligned_initial (g : Digraph ν) : Aligned g State.initial :=
  ⟨rfl, rfl, List.nodup_nil, by simp [State.initial], by simp [State.initial], .nil none⟩

/-! ## Moves -/

/-- What a step can do: leave the end of the path, extend the path, report the cycle that a
successor on the path closes, pass over a cycle whose key is known, or pass over a successor that
was visited and left before. -/
inductive Move (g : Digraph ν) (label : ν → String) : State ν → State ν → Prop
  | leave {s : State ν} {u : ν} {path : List ν} {pending : List (List ν)}
      (hpath : s.path = u :: path) (hpending : s.pending = [] :: pending) :
      Move g label s { s with
        path := path, onPath := path, position := places path, pending := pending }
  | enter {s : State ν} {u v : ν} {path more : List ν} {pending : List (List ν)}
      (hpath : s.path = u :: path) (hpending : s.pending = (v :: more) :: pending)
      (hv : v ∉ s.visited) :
      Move g label s (State.enter g v { s with pending := more :: pending })
  | report {s : State ν} {v : ν} {front back more : List ν} {pending : List (List ν)}
      (hpath : s.path = front ++ v :: back) (hpending : s.pending = (v :: more) :: pending)
      (hnew : key label (v :: front.reverse) ∉ s.seen) :
      Move g label s { s with
        pending := more :: pending
        seen := key label (v :: front.reverse) :: s.seen
        found := s.found ++ [v :: front.reverse] }
  | known {s : State ν} {v : ν} {front back more : List ν} {pending : List (List ν)}
      (hpath : s.path = front ++ v :: back) (hpending : s.pending = (v :: more) :: pending)
      (hseen : key label (v :: front.reverse) ∈ s.seen) :
      Move g label s { s with pending := more :: pending }
  | pass {s : State ν} {u v : ν} {path more : List ν} {pending : List (List ν)}
      (hpath : s.path = u :: path) (hpending : s.pending = (v :: more) :: pending)
      (hv : v ∈ s.visited) (hleft : v ∉ s.path) :
      Move g label s { s with pending := more :: pending }

section Moves

variable {g : Digraph ν} {label : ν → String} {s t : State ν}

theorem positionOf?_eq (h : Aligned g s) (front back : List ν) {v : ν}
    (hpath : s.path = front ++ v :: back) : s.positionOf? v = some back.length := by
  have hfront : v ∉ front := by
    have hnodup := h.nodup
    rw [hpath] at hnodup
    intro hv
    exact (List.nodup_append.mp hnodup).2.2 v hv v List.mem_cons_self rfl
  rw [State.positionOf?, h.position, hpath, find?_places front back v hfront]
  rfl

theorem leave?_eq (h : Aligned g s) {u : ν} {path : List ν} (hpath : s.path = u :: path)
    (pending : List (List ν)) :
    s.leave? pending = some { s with
      path := path, onPath := path, position := places path, pending := pending } := by
  have hu : u ∉ path := by
    have hnodup := h.nodup
    rw [hpath] at hnodup
    exact (List.nodup_cons.mp hnodup).1
  have honPath : s.onPath.filter (· ≠ u) = path := by
    rw [h.onPath, hpath, List.filter_cons_of_neg (by simp), List.filter_eq_self]
    intro v hv
    exact decide_eq_true fun e => hu (e ▸ hv)
  have hposition : s.position.filter (·.1 ≠ u) = places path := by
    rw [h.position, hpath, places, List.filter_cons_of_neg (by simp), filter_places hu]
  have hplace : s.positionOf? u = some path.length :=
    positionOf?_eq h [] path hpath
  simp only [State.leave?, hpath, hplace, honPath, hposition]

/-- With something pending, a step is a move. -/
theorem exists_move (h : Aligned g s) (hpending : s.pending ≠ []) :
    ∃ t, step g label s = some t ∧ Move g label s t := by
  have hframes := h.frames
  cases hp : s.pending with
  | nil => exact absurd hp hpending
  | cons more pending =>
    cases hpath : s.path with
    | nil =>
      rw [hp, hpath] at hframes
      cases hframes
    | cons u path =>
      cases more with
      | nil =>
        refine ⟨_, ?_, .leave hpath hp⟩
        rw [step, hp]
        exact leave?_eq h hpath pending
      | cons v more =>
        by_cases hv : v ∈ s.visited
        · by_cases hon : v ∈ s.path
          · obtain ⟨front, back, hsplit⟩ := List.append_of_mem hon
            have hclose : step g label s = s.close? label v (more :: pending) := by
              simp [step, hp, hv, h.onPath, hon]
            by_cases hk : key label (v :: front.reverse) ∈ s.seen
            · refine ⟨_, ?_, .known hsplit hp hk⟩
              rw [hclose]
              simp [State.close?, positionOf?_eq h front back hsplit, hsplit, hk]
            · refine ⟨_, ?_, .report hsplit hp hk⟩
              rw [hclose]
              simp [State.close?, positionOf?_eq h front back hsplit, hsplit, hk]
          · refine ⟨_, ?_, .pass hpath hp hv hon⟩
            simp [step, hp, hv, h.onPath, hon]
        · refine ⟨_, ?_, .enter hpath hp hv⟩
          simp [step, hp, hv]

theorem Aligned.mem_successors (h : Aligned g s) {u v : ν} {path more : List ν}
    {pending : List (List ν)} (hpath : s.path = u :: path)
    (hpending : s.pending = (v :: more) :: pending) : v ∈ g.successors u := by
  have hframes := h.frames
  rw [hpath, hpending] at hframes
  cases hframes with
  | cons looked split _ _ _ =>
    rw [split]
    exact List.mem_append_right _ List.mem_cons_self

/-- Looking at a successor without going to it keeps a state aligned. -/
theorem Aligned.look (h : Aligned g s) {u v : ν} {path more : List ν} {pending : List (List ν)}
    (hpath : s.path = u :: path) (hpending : s.pending = (v :: more) :: pending) :
    Frames g.successors (fun _ _ => True) none s.path (more :: pending) := by
  have hframes := h.frames
  rw [hpath, hpending] at hframes
  rw [hpath]
  exact hframes.look trivial

omit [DecidableEq ν] in
/-- A path with a node on it has an end. -/
theorem exists_end {path front back : List ν} {v : ν} (h : path = front ++ v :: back) :
    ∃ u rest, path = u :: rest := by
  cases front with
  | nil => exact ⟨v, back, h⟩
  | cons u front => exact ⟨u, front ++ v :: back, h⟩

theorem Move.aligned (hm : Move g label s t) (h : Aligned g s) : Aligned g t := by
  cases hm with
  | @leave u path pending hpath hpending =>
    have hnodup := h.nodup
    have hvisited := h.visited
    have hframes := h.frames
    rw [hpath] at hnodup hvisited
    rw [hpath, hpending] at hframes
    exact ⟨rfl, rfl, (List.nodup_cons.mp hnodup).2,
      fun v hv => hvisited v (List.mem_cons_of_mem _ hv), h.nodes, hframes.pop fun _ => trivial⟩
  | @enter u v path more pending hpath hpending hv =>
    have hframes := h.frames
    rw [hpath, hpending] at hframes
    refine ⟨?_, ?_, ?_, ?_, ?_, ?_⟩
    · simp [State.enter, h.onPath]
    · simp [State.enter, places, h.position]
    · exact List.nodup_cons.mpr ⟨fun hp => hv (h.visited v hp), h.nodup⟩
    · intro x hx
      rcases List.mem_cons.mp hx with rfl | hx
      · exact List.mem_cons_self
      · exact List.mem_cons_of_mem _ (h.visited x hx)
    · intro x hx
      rcases List.mem_cons.mp hx with rfl | hx
      · exact Digraph.successors_subset (h.mem_successors hpath hpending)
      · exact h.nodes x hx
    · simp only [State.enter, hpath]
      exact hframes.push
  | @report v front back more pending hpath hpending hnew =>
    obtain ⟨u, rest, hu⟩ := exists_end hpath
    exact ⟨h.onPath, h.position, h.nodup, h.visited, h.nodes, h.look hu hpending⟩
  | @known v front back more pending hpath hpending hseen =>
    obtain ⟨u, rest, hu⟩ := exists_end hpath
    exact ⟨h.onPath, h.position, h.nodup, h.visited, h.nodes, h.look hu hpending⟩
  | @pass u v path more pending hpath hpending hv hleft =>
    exact ⟨h.onPath, h.position, h.nodup, h.visited, h.nodes, h.look hpath hpending⟩

theorem Move.visited_subset (hm : Move g label s t) : s.visited ⊆ t.visited := by
  cases hm with
  | enter => exact List.subset_cons_self _ _
  | _ => exact List.Subset.refl _

/-! ## The search ends -/

/-- Visiting a node takes its share off the work on unvisited nodes. -/
theorem sum_unvisited {nodes visited : List ν} {v : ν} (weight : ν → Nat) (hnodup : nodes.Nodup)
    (hmem : v ∈ nodes) (hv : v ∉ visited) :
    ((nodes.filter (· ∉ visited)).map weight).foldr (· + ·) 0
      = weight v + ((nodes.filter (· ∉ v :: visited)).map weight).foldr (· + ·) 0 := by
  induction nodes with
  | nil => simp at hmem
  | cons a nodes ih =>
    obtain ⟨ha, hnodup'⟩ := List.nodup_cons.mp hnodup
    rcases List.mem_cons.mp hmem with rfl | hmem
    · have hsame : nodes.filter (· ∉ visited) = nodes.filter (· ∉ v :: visited) := by
        refine List.filter_congr fun x hx => ?_
        have hne : x ≠ v := fun e => ha (e ▸ hx)
        simp [hne]
      rw [List.filter_cons_of_pos (by simpa using hv), List.filter_cons_of_neg (by simp),
        List.map_cons, List.foldr_cons, hsame]
    · have hne : a ≠ v := fun e => ha (e ▸ hmem)
      by_cases hvis : a ∈ visited
      · rw [List.filter_cons_of_neg (by simpa using hvis),
          List.filter_cons_of_neg (by simp [hvis]), ih hnodup' hmem]
      · rw [List.filter_cons_of_pos (by simpa using hvis),
          List.filter_cons_of_pos (by simp [hne, hvis]), List.map_cons, List.foldr_cons,
          List.map_cons, List.foldr_cons, ih hnodup' hmem]
        omega

theorem remaining_enter (s : State ν) {v : ν} (hmem : v ∈ g.nodes) (hv : v ∉ s.visited) :
    remaining g (s.enter g v) = remaining g s := by
  let weight := fun w => (g.successors w).length + 1
  have hsum := sum_unvisited weight g.nodup_nodes hmem hv
  calc remaining g (s.enter g v)
      = ((g.nodes.filter (· ∉ v :: s.visited)).map weight).foldr (· + ·) 0
        + (weight v + (s.pending.map fun more => more.length + 1).foldr (· + ·) 0) := rfl
    _ = ((g.nodes.filter (· ∉ s.visited)).map weight).foldr (· + ·) 0
        + (s.pending.map fun more => more.length + 1).foldr (· + ·) 0 := by
      simp only [Digraph.nodes] at hsum ⊢
      omega
    _ = remaining g s := rfl

theorem Move.remaining_eq (hm : Move g label s t) (h : Aligned g s) :
    remaining g s = remaining g t + 1 := by
  cases hm with
  | leave hpath hpending => simp [remaining, hpending]; omega
  | @enter u v path more pending hpath hpending hv =>
    have hmem := Digraph.successors_subset (h.mem_successors hpath hpending)
    rw [remaining_enter { s with pending := more :: pending } hmem hv]
    simp [remaining, hpending]
    omega
  | report hpath hpending => simp [remaining, hpending]; omega
  | known hpath hpending => simp [remaining, hpending]; omega
  | pass hpath hpending => simp [remaining, hpending]; omega

theorem Aligned.pending_eq_nil (h : Aligned g s) (hpath : s.path = []) : s.pending = [] := by
  have hframes := h.frames
  cases hp : s.pending with
  | nil => rfl
  | cons more pending =>
    rw [hpath, hp] at hframes
    cases hframes

theorem Aligned.path_eq_nil (h : Aligned g s) (hpending : s.pending = []) : s.path = [] := by
  have hframes := h.frames
  cases hp : s.path with
  | nil => rfl
  | cons u path =>
    rw [hpending, hp] at hframes
    cases hframes

/-- With as many steps as remain, a run comes to the end of the path. -/
theorem run_induction {P : State ν → Prop}
    (hmove : ∀ s t, Aligned g s → P s → Move g label s t → P t) (count : Nat) (s : State ν)
    (h : Aligned g s) (hP : P s) (hcount : remaining g s ≤ count) :
    ∃ t, run g label count s = some t ∧ Aligned g t ∧ t.path = [] ∧ P t
      ∧ s.visited ⊆ t.visited := by
  induction count generalizing s with
  | zero =>
    have hpending : s.pending = [] := by
      cases hp : s.pending with
      | nil => rfl
      | cons more pending => simp [remaining, hp] at hcount
    exact ⟨s, rfl, h, h.path_eq_nil hpending, hP, List.Subset.refl _⟩
  | succ count ih =>
    by_cases hpending : s.pending = []
    · refine ⟨s, ?_, h, h.path_eq_nil hpending, hP, List.Subset.refl _⟩
      simp [run, hpending]
    · have hmoves : ∃ t, step g label s = some t ∧ Move g label s t := exists_move h hpending
      obtain ⟨t, hstep, hm⟩ := hmoves
      have hless := hm.remaining_eq h
      obtain ⟨u, hrun, hu, hupath, hPu, hsub⟩ :=
        ih t (hm.aligned h) (hmove s t h hP hm) (by omega)
      refine ⟨u, ?_, hu, hupath, hPu, List.Subset.trans hm.visited_subset hsub⟩
      simp [run, hpending, hstep, hrun]

/-- At a starting point the path is empty, and it is just that point afterwards. -/
theorem Aligned.enter (h : Aligned g s) (hpath : s.path = []) {root : ν}
    (hroot : root ∈ g.nodes) : Aligned g (s.enter g root) := by
  have hpending := h.pending_eq_nil hpath
  refine ⟨?_, ?_, ?_, ?_, ?_, ?_⟩
  · simp [State.enter, h.onPath]
  · simp [State.enter, places, h.position]
  · simp [State.enter, hpath]
  · simp [State.enter, hpath]
  · intro x hx
    rcases List.mem_cons.mp hx with rfl | hx
    · exact hroot
    · exact h.nodes x hx
  · simp only [State.enter, hpath, hpending]
    exact .cons [] rfl (by simp) (by simp) (.nil _)

theorem searchFrom_induction {P : State ν → Prop} {root : ν}
    (henter : ∀ s, Aligned g s → s.path = [] → P s → root ∈ g.nodes → root ∉ s.visited →
      P (s.enter g root))
    (hmove : ∀ s t, Aligned g s → P s → Move g label s t → P t) (s : State ν)
    (h : Aligned g s) (hpath : s.path = []) (hP : P s) :
    ∃ t, searchFrom g label s root = some t ∧ Aligned g t ∧ t.path = [] ∧ P t
      ∧ s.visited ⊆ t.visited ∧ (root ∈ g.nodes → root ∈ t.visited) := by
  by_cases hskip : root ∈ s.visited ∨ root ∉ g.nodes
  · refine ⟨s, by simp [searchFrom, hskip], h, hpath, hP, List.Subset.refl _, fun hroot => ?_⟩
    exact hskip.resolve_right (fun hno => hno hroot)
  · obtain ⟨hfresh, hroot⟩ := not_or.mp hskip
    have hroot : root ∈ g.nodes := Classical.not_not.mp hroot
    obtain ⟨t, hrun, ht, htpath, hPt, hsub⟩ :=
      run_induction hmove _ _ (h.enter hpath hroot) (henter s h hpath hP hroot hfresh) le_rfl
    refine ⟨t, by simpa [searchFrom, hskip] using hrun, ht, htpath, hPt, ?_, fun _ => ?_⟩
    · exact fun x hx => hsub (List.mem_cons_of_mem _ hx)
    · exact hsub List.mem_cons_self

/-- From an aligned state at rest, searching from more starting points comes to rest again, with all
of them visited and with every property that entering them and moving preserve. -/
theorem foldlM_searchFrom_induction {P : State ν → Prop} (order : List ν)
    (henter : ∀ s root, Aligned g s → s.path = [] → P s → root ∈ order → root ∈ g.nodes →
      root ∉ s.visited → P (s.enter g root))
    (hmove : ∀ s t, Aligned g s → P s → Move g label s t → P t) (s : State ν) (h : Aligned g s)
    (hpath : s.path = []) (hP : P s) :
    ∃ t, order.foldlM (searchFrom g label) s = some t ∧ Aligned g t ∧ t.path = [] ∧ P t
      ∧ s.visited ⊆ t.visited ∧ ∀ root ∈ order, root ∈ g.nodes → root ∈ t.visited := by
  induction order generalizing s with
  | nil => exact ⟨s, rfl, h, hpath, hP, List.Subset.refl _, by simp⟩
  | cons root order ih =>
    obtain ⟨t, hfrom, ht, htpath, hPt, hsub, hroot⟩ :=
      searchFrom_induction (fun s h hpath hP => henter s root h hpath hP List.mem_cons_self)
        hmove s h hpath hP
    obtain ⟨u, hfold, hu, hupath, hPu, hsub', hroots⟩ :=
      ih (fun s r h hpath hP hr => henter s r h hpath hP (List.mem_cons_of_mem _ hr))
        t ht htpath hPt
    refine ⟨u, ?_, hu, hupath, hPu, List.Subset.trans hsub hsub', ?_⟩
    · simp [List.foldlM_cons, hfrom, hfold]
    · intro r hr hnode
      rcases List.mem_cons.mp hr with rfl | hr
      · exact hsub' (hroot hnode)
      · exact hroots r hr hnode

/-- The search ends, with an empty path and every starting point visited. It has every property
that holds at first and that entering a starting point and moving preserve. -/
theorem search_induction (P : State ν → Prop) (order : List ν) (hinitial : P State.initial)
    (henter : ∀ s root, Aligned g s → s.path = [] → P s → root ∈ order → root ∈ g.nodes →
      root ∉ s.visited → P (s.enter g root))
    (hmove : ∀ s t, Aligned g s → P s → Move g label s t → P t) :
    ∃ s, search g label order = some s ∧ Aligned g s ∧ s.path = [] ∧ P s
      ∧ ∀ root ∈ order, root ∈ g.nodes → root ∈ s.visited := by
  obtain ⟨t, hsearch, ht, htpath, hPt, _, hroots⟩ :=
    foldlM_searchFrom_induction order henter hmove State.initial (aligned_initial g) rfl hinitial
  exact ⟨t, hsearch, ht, htpath, hPt, hroots⟩

/-! ## States on the way -/

/-- The state that a search ends in. -/
theorem of_search_eq_some (P : State ν → Prop) {order : List ν}
    (hsearch : search g label order = some s) (hinitial : P State.initial)
    (henter : ∀ s root, Aligned g s → s.path = [] → P s → root ∈ order → root ∈ g.nodes →
      root ∉ s.visited → P (s.enter g root))
    (hmove : ∀ s t, Aligned g s → P s → Move g label s t → P t) :
    Aligned g s ∧ s.path = [] ∧ P s := by
  obtain ⟨t, ht, ha, hpath, hP, _⟩ := search_induction P order hinitial henter hmove
  obtain rfl : s = t := Option.some.inj (hsearch.symm.trans ht)
  exact ⟨ha, hpath, hP⟩

/-- The search from the starting points passes this state: it is what entering a starting point
gives after those before it were searched from, or what a step gives while something is pending. -/
inductive Underway (g : Digraph ν) (label : ν → String) (order : List ν) : State ν → Prop
  | start {before after : List ν} {root : ν} {s : State ν} (horder : order = before ++ root :: after)
      (hsearch : search g label before = some s) (hfresh : root ∉ s.visited)
      (hroot : root ∈ g.nodes) : Underway g label order (s.enter g root)
  | next {s t : State ν} (hs : Underway g label order s) (hpending : s.pending ≠ [])
      (hstep : step g label s = some t) : Underway g label order t

/-- Such a state has every property that holds at first and that entering a starting point and
moving preserve. -/
theorem Underway.invariant {order : List ν} (h : Underway g label order s) (P : State ν → Prop)
    (hinitial : P State.initial)
    (henter : ∀ s root, Aligned g s → s.path = [] → P s → root ∈ order → root ∈ g.nodes →
      root ∉ s.visited → P (s.enter g root))
    (hmove : ∀ s t, Aligned g s → P s → Move g label s t → P t) : Aligned g s ∧ P s := by
  induction h with
  | @start before after root s horder hsearch hfresh hroot =>
    have hbefore : ∀ r ∈ before, r ∈ order := fun r hr => by simp [horder, hr]
    obtain ⟨ha, hpath, hP⟩ := of_search_eq_some P hsearch hinitial
      (fun s r ha hpath hP hr => henter s r ha hpath hP (hbefore r hr)) hmove
    exact ⟨ha.enter hpath hroot, henter s root ha hpath hP (by simp [horder]) hroot hfresh⟩
  | @next s t _ hpending hstep ih =>
    obtain ⟨ha, hP⟩ := ih
    obtain ⟨u, hu, hm⟩ := exists_move ha hpending
    obtain rfl : t = u := Option.some.inj (hstep.symm.trans hu)
    exact ⟨hm.aligned ha, hmove s t ha hP hm⟩

theorem Underway.aligned {order : List ν} (h : Underway g label order s) : Aligned g s :=
  (h.invariant (fun _ => True) trivial (fun _ _ _ _ _ _ _ _ => trivial)
    fun _ _ _ _ _ => trivial).1

/-- What is left to do from a state on the way leads to the end of the search. -/
theorem Underway.exists_rest {order : List ν} (h : Underway g label order s) :
    ∃ (after : List ν) (t : State ν), run g label (remaining g s) s = some t
      ∧ after.foldlM (searchFrom g label) t = search g label order := by
  induction h with
  | @start before after root s horder hsearch hfresh hroot =>
    obtain ⟨ha, hpath, _⟩ := of_search_eq_some (fun _ => True) hsearch trivial
      (fun _ _ _ _ _ _ _ _ => trivial) fun _ _ _ _ _ => trivial
    obtain ⟨t, hrun, _⟩ := run_induction (P := fun _ => True)
      (fun s t _ _ (_ : Move g label s t) => trivial) _ _ (ha.enter hpath hroot) trivial le_rfl
    refine ⟨after, t, hrun, ?_⟩
    have hbefore : before.foldlM (searchFrom g label) State.initial = some s := hsearch
    have hskip : ¬ (root ∈ s.visited ∨ root ∉ g.nodes) :=
      not_or.mpr ⟨hfresh, fun hno => hno hroot⟩
    have hfrom : searchFrom g label s root = some t := by
      simpa [searchFrom, hskip] using hrun
    simp [search, horder, List.foldlM_append, hbefore, hfrom]
  | @next s t hs hpending hstep ih =>
    obtain ⟨after, u, hrun, hfold⟩ := ih
    obtain ⟨v, hv, hm⟩ := exists_move hs.aligned hpending
    obtain rfl : t = v := Option.some.inj (hstep.symm.trans hv)
    refine ⟨after, u, ?_, hfold⟩
    rw [hm.remaining_eq hs.aligned, run] at hrun
    simpa [hpending, hstep] using hrun

theorem Move.found_kept (hm : Move g label s t) : s.found <+: t.found := by
  cases hm with
  | report => exact List.prefix_append _ _
  | _ => exact List.prefix_rfl

/-- What is found in a state on the way is found in the end. -/
theorem Underway.found_kept {order : List ν} (h : Underway g label order s) :
    ∃ t, search g label order = some t ∧ s.found <+: t.found := by
  obtain ⟨after, t, hrun, hfold⟩ := h.exists_rest
  obtain ⟨u, hu, ha, hpath, hfound, _⟩ := run_induction (P := fun u => s.found <+: u.found)
    (fun t u _ hP (hm : Move g label t u) => hP.trans hm.found_kept)
    (remaining g s) s h.aligned List.prefix_rfl le_rfl
  obtain rfl : t = u := Option.some.inj (hrun.symm.trans hu)
  obtain ⟨w, hw, _, _, hfound, _⟩ := foldlM_searchFrom_induction
    (P := fun u => s.found <+: u.found) after (fun _ _ _ _ hP _ _ _ => hP)
    (fun t u _ hP (hm : Move g label t u) => hP.trans hm.found_kept) t ha hpath hfound
  exact ⟨w, hfold.symm.trans hw, hfound⟩

end Moves

end RepoSurvey.CycleSearch
