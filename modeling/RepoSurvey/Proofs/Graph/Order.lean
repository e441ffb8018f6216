import Mathlib.Data.List.Induction
import RepoSurvey.Proofs.Graph.Edges

/-!
# The order of a graph that is built up

Nodes stand in the order in which they were added, and so do the successors of a node, once each.

* `eraseDups_concat`, `nodup_eraseDups`, `filter_eraseDups`, `pairwise_eraseDups`: a list without
  its repetitions;
* `Digraph.adjacency_addNodes`, `Digraph.adjacency_addEdges`: the entries of a graph after nodes,
  and edges between nodes, are added;
* `Digraph.Induced`: a graph on some nodes of another one, with the edges between them.
-/

namespace RepoSurvey

/-! ## Lists without repetitions -/

section EraseDups

variable {α : Type} [DecidableEq α]

/-- A member that comes last is kept if it is new. -/
theorem eraseDups_concat (l : List α) (a : α) :
    (l ++ [a]).eraseDups = if a ∈ l then l.eraseDups else l.eraseDups ++ [a] := by
  rw [List.eraseDups_append]
  by_cases h : a ∈ l <;> simp [List.removeAll, List.eraseDups_cons, h]

theorem nodup_eraseDups (l : List α) : l.eraseDups.Nodup := by
  induction l using List.reverseRecOn with
  | nil => simp
  | append_singleton l a ih =>
    rw [eraseDups_concat]
    split
    · exact ih
    · rename_i hnew
      apply List.nodup_append.mpr ⟨ih, by simp, ?_⟩
      intro b hb c hc hbc
      rw [List.mem_singleton.mp hc] at hbc
      exact hnew (hbc ▸ List.mem_eraseDups.mp hb)

theorem filter_eraseDups (p : α → Bool) (l : List α) :
    l.eraseDups.filter p = (l.filter p).eraseDups := by
  induction l using List.reverseRecOn with
  | nil => simp
  | append_singleton l a ih =>
    rw [eraseDups_concat, List.filter_append]
    by_cases hp : p a = true
    · have hmem : a ∈ l.filter p ↔ a ∈ l := by simp [hp]
      rw [List.filter_cons_of_pos hp, List.filter_nil, eraseDups_concat]
      by_cases h : a ∈ l
      · rw [if_pos h, if_pos (hmem.mpr h), ih]
      · rw [if_neg h, if_neg (fun h' => h (hmem.mp h')), List.filter_append, ih]
        simp [hp]
    · by_cases h : a ∈ l <;> simp [h, hp, ih]

/-- What is kept earlier stands in the list before what is kept later. -/
theorem pairwise_eraseDups (l : List α) :
    l.eraseDups.Pairwise fun a b => ∃ front back, l = front ++ a :: back ∧ b ∉ front := by
  induction l using List.reverseRecOn with
  | nil => simp
  | append_singleton l c ih =>
    have hold : l.eraseDups.Pairwise fun a b =>
        ∃ front back, l ++ [c] = front ++ a :: back ∧ b ∉ front := by
      refine ih.imp ?_
      rintro a b ⟨front, back, hl, hb⟩
      exact ⟨front, back ++ [c], by simp [hl], hb⟩
    rw [eraseDups_concat]
    split
    · exact hold
    · rename_i hnew
      refine List.pairwise_append.mpr ⟨hold, by simp, ?_⟩
      intro a ha b hb
      obtain ⟨front, back, hl⟩ := List.append_of_mem (List.mem_eraseDups.mp ha)
      refine ⟨front, back ++ [c], by simp [hl], ?_⟩
      rw [List.mem_singleton.mp hb]
      intro hfront
      exact hnew (by simp [hl, hfront])

end EraseDups

namespace Digraph

variable {ν : Type} [DecidableEq ν]

theorem successors_eq {g : Digraph ν} {u : ν} {out : List ν} (h : (u, out) ∈ g.adjacency) :
    g.successors u = out := by
  unfold successors
  cases hf : g.adjacency.find? fun e => e.1 = u with
  | none =>
    rw [List.find?_eq_none] at hf
    exact absurd (hf (u, out) h) (by simp)
  | some d =>
    have hd := List.mem_of_find?_eq_some hf
    have hdu : d.1 = u := by simpa using List.find?_some hf
    rw [g.entry_unique hd h hdu]
    rfl

/-! ## Building a graph -/

theorem addNode_of_mem {g : Digraph ν} {v : ν} (h : v ∈ g.nodes) : g.addNode v = g :=
  dif_pos h

theorem adjacency_addNode_of_not_mem {g : Digraph ν} {v : ν} (h : v ∉ g.nodes) :
    (g.addNode v).adjacency = g.adjacency ++ [(v, [])] := by
  rw [addNode, dif_neg h]

/-- Distinct nodes stand in the order in which they are added. -/
theorem adjacency_addNodes {vs : List ν} (h : vs.Nodup) :
    ((empty : Digraph ν).addNodes vs).adjacency = vs.map fun v => (v, []) := by
  induction vs using List.reverseRecOn with
  | nil => rfl
  | append_singleton vs v ih =>
    obtain ⟨hvs, _, hnew⟩ := List.nodup_append.mp h
    have hnodes : ((empty : Digraph ν).addNodes vs).nodes = vs := by
      simp [nodes, ih hvs, Function.comp_def]
    have hv : v ∉ ((empty : Digraph ν).addNodes vs).nodes := by
      rw [hnodes]
      intro hmem
      exact hnew v hmem v (by simp) rfl
    have hlast : (empty : Digraph ν).addNodes (vs ++ [v])
        = ((empty : Digraph ν).addNodes vs).addNode v := by
      simp [addNodes]
    rw [hlast, adjacency_addNode_of_not_mem hv, ih hvs]
    simp

/-- An edge between nodes makes the one a successor of the other. -/
theorem adjacency_addEdge {g : Digraph ν} {u v : ν} (hu : u ∈ g.nodes) (hv : v ∈ g.nodes) :
    (g.addEdge u v).adjacency = g.adjacency.map (linkEntry u v) := by
  simp [addEdge, link, addNode_of_mem hu, addNode_of_mem hv]

/-- The targets of some edges from a node, in their order. -/
def targetsFrom (es : List (ν × ν)) (u : ν) : List ν :=
  (es.filter fun e => e.1 = u).map (·.2)

theorem targetsFrom_concat (es : List (ν × ν)) (e : ν × ν) (u : ν) :
    targetsFrom (es ++ [e]) u
      = if e.1 = u then targetsFrom es u ++ [e.2] else targetsFrom es u := by
  by_cases h : e.1 = u <;> simp [targetsFrom, h]

theorem linkEntry_targetsFrom (es : List (ν × ν)) (e : ν × ν) (u : ν) :
    linkEntry e.1 e.2 (u, (targetsFrom es u).eraseDups)
      = (u, (targetsFrom (es ++ [e]) u).eraseDups) := by
  rw [targetsFrom_concat, linkEntry]
  by_cases hu : e.1 = u
  · by_cases hmem : e.2 ∈ targetsFrom es u <;>
      simp [hu, hmem, eraseDups_concat, List.mem_eraseDups]
  · have hne : ¬ u = e.1 := fun h => hu h.symm
    simp [hu, hne]

/-- Edges between nodes that have no successors yet: the successors of a node are the targets of
its edges in the order in which they are first added. -/
theorem adjacency_addEdges {g : Digraph ν} (hg : ∀ e ∈ g.adjacency, e.2 = []) {es : List (ν × ν)}
    (hes : ∀ e ∈ es, e.1 ∈ g.nodes ∧ e.2 ∈ g.nodes) :
    (g.addEdges es).adjacency
      = g.adjacency.map fun e => (e.1, (targetsFrom es e.1).eraseDups) := by
  induction es using List.reverseRecOn with
  | nil =>
    have hsame : g.adjacency.map (fun e => (e.1, (targetsFrom [] e.1).eraseDups))
        = g.adjacency.map id := by
      refine List.map_congr_left ?_
      intro e he
      simp [targetsFrom, Prod.ext_iff, hg e he]
    rw [hsame, List.map_id]
    rfl
  | append_singleton es e ih =>
    have hfront := ih fun d hd => hes d (List.mem_append_left _ hd)
    have hnodes : (g.addEdges es).nodes = g.nodes := by
      simp [nodes, hfront]
    obtain ⟨hsource, htarget⟩ := hes e (by simp)
    have hlast : g.addEdges (es ++ [e]) = (g.addEdges es).addEdge e.1 e.2 := by
      simp [addEdges]
    rw [hlast, adjacency_addEdge (hnodes ▸ hsource) (hnodes ▸ htarget), hfront, List.map_map]
    refine List.map_congr_left ?_
    intro d _
    exact linkEntry_targetsFrom es e d.1

/-! ## Parts of a graph -/

/-- `h` has the nodes `keep` of `g`, in this order, and all edges of `g` between them; the
successors of a node stand in the same order in both. -/
structure Induced (g : Digraph ν) (keep : List ν) (h : Digraph ν) : Prop where
  nodes : h.nodes = keep
  successors : ∀ v ∈ keep, h.successors v = (g.successors v).filter (· ∈ keep)

end Digraph

end RepoSurvey
