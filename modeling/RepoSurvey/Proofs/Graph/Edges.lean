import Mathlib.Data.List.Nodup
import RepoSurvey.Graph.Digraph

/-!
# Edges of a graph

* `Digraph.Adj`: there is an edge between two nodes;
* `Digraph.mem_edges`: the edges listed are those;
* `Digraph.adj_addNodes`, `Digraph.adj_addEdges`: the edges of a graph that is built up.
-/

namespace RepoSurvey.Digraph

variable {ν : Type} [DecidableEq ν]

/-- `v` is a successor of `u`. -/
def Adj (g : Digraph ν) (u v : ν) : Prop := v ∈ g.successors u

omit [DecidableEq ν] in
/-- A node has one entry only. -/
theorem entry_unique (g : Digraph ν) {d e : ν × List ν} (hd : d ∈ g.adjacency)
    (he : e ∈ g.adjacency) (h : d.1 = e.1) : d = e :=
  List.inj_on_of_nodup_map g.nodup_nodes hd he h

theorem adj_iff {g : Digraph ν} {u v : ν} :
    g.Adj u v ↔ ∃ e ∈ g.adjacency, e.1 = u ∧ v ∈ e.2 := by
  unfold Adj successors
  cases hf : g.adjacency.find? fun e => e.1 = u with
  | none =>
    rw [List.find?_eq_none] at hf
    constructor
    · intro h
      simp at h
    · rintro ⟨e, he, hu, _⟩
      exact absurd (by simpa using hu) (hf e he)
  | some d =>
    have hd := List.mem_of_find?_eq_some hf
    have hdu : d.1 = u := by simpa using List.find?_some hf
    constructor
    · exact fun h => ⟨d, hd, hdu, h⟩
    · rintro ⟨e, he, hu, hv⟩
      rw [g.entry_unique he hd (hu.trans hdu.symm)] at hv
      exact hv

theorem Adj.target_mem {g : Digraph ν} {u v : ν} (h : g.Adj u v) : v ∈ g.nodes :=
  successors_subset h

theorem nodup_successors_node (g : Digraph ν) (u : ν) : (g.successors u).Nodup := by
  unfold successors
  cases hf : g.adjacency.find? fun e => e.1 = u with
  | none => exact List.nodup_nil
  | some e => exact g.nodup_successors e (List.mem_of_find?_eq_some hf)

theorem mem_edges {g : Digraph ν} {e : ν × ν} : e ∈ g.edges ↔ g.Adj e.1 e.2 := by
  rw [adj_iff, edges, List.mem_flatMap]
  constructor
  · rintro ⟨d, hd, he⟩
    obtain ⟨v, hv, rfl⟩ := List.mem_map.mp he
    exact ⟨d, hd, rfl, hv⟩
  · rintro ⟨d, hd, hu, hv⟩
    exact ⟨d, hd, List.mem_map.mpr ⟨e.2, hv, by rw [hu]⟩⟩

/-! ## Building a graph -/

theorem not_adj_empty (u v : ν) : ¬ (empty : Digraph ν).Adj u v := by
  simp [adj_iff, empty]

theorem adj_addNode {g : Digraph ν} {w u v : ν} : (g.addNode w).Adj u v ↔ g.Adj u v := by
  unfold addNode
  split
  · rfl
  · rw [adj_iff, adj_iff]
    constructor
    · rintro ⟨e, he, hu, hv⟩
      rcases List.mem_append.mp he with he | he
      · exact ⟨e, he, hu, hv⟩
      · rw [List.mem_singleton.mp he] at hv
        simp at hv
    · rintro ⟨e, he, hu, hv⟩
      exact ⟨e, List.mem_append_left _ he, hu, hv⟩

theorem subset_linkEntry {u v : ν} {e : ν × List ν} : e.2 ⊆ (linkEntry u v e).2 := by
  intro w hw
  unfold linkEntry
  split
  · exact List.mem_append_left _ hw
  · exact hw

theorem mem_linkEntry_self (v : ν) (e : ν × List ν) : v ∈ (linkEntry e.1 v e).2 := by
  unfold linkEntry
  by_cases hv : v ∈ e.2 <;> simp [hv]

theorem eq_source_of_mem_linkEntry {u v w : ν} {e : ν × List ν} (h : w ∈ (linkEntry u v e).2) :
    w ∈ e.2 ∨ e.1 = u ∧ w = v := by
  unfold linkEntry at h
  split at h
  · rename_i hcond
    rcases List.mem_append.mp h with h | h
    · exact Or.inl h
    · exact Or.inr ⟨hcond.1, List.mem_singleton.mp h⟩
  · exact Or.inl h

theorem adj_link {g : Digraph ν} {a b u v : ν} (ha : a ∈ g.nodes) (hb : b ∈ g.nodes) :
    (g.link a b hb).Adj u v ↔ g.Adj u v ∨ u = a ∧ v = b := by
  rw [adj_iff, adj_iff]
  constructor
  · rintro ⟨e, he, hu, hv⟩
    obtain ⟨d, hd, rfl⟩ := List.mem_map.mp he
    rw [linkEntry_fst] at hu
    rcases eq_source_of_mem_linkEntry hv with hv | ⟨ha, hv⟩
    · exact Or.inl ⟨d, hd, hu, hv⟩
    · exact Or.inr ⟨hu.symm.trans ha, hv⟩
  · rintro (⟨e, he, hu, hv⟩ | ⟨rfl, rfl⟩)
    · exact ⟨linkEntry a b e, List.mem_map_of_mem he, by rw [linkEntry_fst, hu],
        subset_linkEntry hv⟩
    · obtain ⟨e, he, rfl⟩ := List.mem_map.mp ha
      exact ⟨linkEntry e.1 v e, List.mem_map_of_mem he, linkEntry_fst _ _ _,
        mem_linkEntry_self v e⟩

theorem adj_addEdge {g : Digraph ν} {a b u v : ν} :
    (g.addEdge a b).Adj u v ↔ g.Adj u v ∨ u = a ∧ v = b := by
  have ha : a ∈ ((g.addNode a).addNode b).nodes :=
    mem_nodes_addNode.mpr (Or.inl (mem_nodes_addNode.mpr (Or.inr rfl)))
  rw [addEdge, adj_link ha, adj_addNode, adj_addNode]

theorem adj_addNodes {g : Digraph ν} {vs : List ν} {u v : ν} :
    (g.addNodes vs).Adj u v ↔ g.Adj u v := by
  unfold addNodes
  induction vs generalizing g with
  | nil => rfl
  | cons w vs ih => rw [List.foldl_cons, ih, adj_addNode]

theorem adj_addEdges {g : Digraph ν} {es : List (ν × ν)} {u v : ν} :
    (g.addEdges es).Adj u v ↔ g.Adj u v ∨ (u, v) ∈ es := by
  unfold addEdges
  induction es generalizing g with
  | nil => simp
  | cons e es ih =>
    rw [List.foldl_cons, ih, adj_addEdge, List.mem_cons, Prod.ext_iff, or_assoc]

end RepoSurvey.Digraph
