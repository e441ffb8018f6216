/-!
# Directed graphs

A graph lists its nodes, each with its successors, in the order in which they were added. Nodes
and successors are distinct, and successors are nodes; the type says so.

* `Digraph.addNode`, `Digraph.addEdge`; what is there already is not added again;
* `mem_nodes_addNode`, `mem_nodes_addEdge`: the nodes after each;
* `successors_subset`: successors are nodes.
-/

namespace RepoSurvey

structure Digraph (ν : Type) where
  adjacency : List (ν × List ν)
  nodup_nodes : (adjacency.map (·.1)).Nodup
  nodup_successors : ∀ e ∈ adjacency, e.2.Nodup
  closed : ∀ e ∈ adjacency, ∀ v ∈ e.2, v ∈ adjacency.map (·.1)

namespace Digraph

variable {ν : Type} [DecidableEq ν]

def empty : Digraph ν := ⟨[], by simp, by simp, by simp⟩

def nodes (g : Digraph ν) : List ν := g.adjacency.map (·.1)

def successors (g : Digraph ν) (v : ν) : List ν :=
  ((g.adjacency.find? fun e => e.1 = v).map (·.2)).getD []

/-- The edges, by source in the order of the nodes. -/
def edges (g : Digraph ν) : List (ν × ν) :=
  g.adjacency.flatMap fun (u, out) => out.map fun v => (u, v)

def addNode (g : Digraph ν) (v : ν) : Digraph ν :=
  if h : v ∈ g.nodes then g
  else
    { adjacency := g.adjacency ++ [(v, [])]
      nodup_nodes := by
        simp only [List.map_append, List.map_cons, List.map_nil]
        refine List.nodup_append.mpr ⟨g.nodup_nodes, by simp, ?_⟩
        intro a ha b hb e
        simp only [List.mem_singleton] at hb
        exact h (hb ▸ e ▸ ha)
      nodup_successors := by
        intro e he
        rcases List.mem_append.mp he with he | he
        · exact g.nodup_successors e he
        · simp only [List.mem_singleton] at he
          subst he
          exact List.nodup_nil
      closed := by
        intro e he w hw
        rcases List.mem_append.mp he with he | he
        · simp only [List.map_append, List.mem_append]
          exact Or.inl (g.closed e he w hw)
        · simp only [List.mem_singleton] at he
          subst he
          simp at hw }

omit [DecidableEq ν] in
theorem map_fst_map {f : ν × List ν → ν × List ν} (hf : ∀ e, (f e).1 = e.1)
    (l : List (ν × List ν)) : (l.map f).map (·.1) = l.map (·.1) := by
  simp [hf]

/-- The entry of `u` with `v` among its successors. -/
def linkEntry (u v : ν) (e : ν × List ν) : ν × List ν :=
  if e.1 = u ∧ v ∉ e.2 then (e.1, e.2 ++ [v]) else e

theorem linkEntry_fst (u v : ν) (e : ν × List ν) : (linkEntry u v e).1 = e.1 := by
  unfold linkEntry
  split <;> rfl

theorem mem_linkEntry {u v w : ν} {e : ν × List ν} (h : w ∈ (linkEntry u v e).2) :
    w ∈ e.2 ∨ w = v := by
  unfold linkEntry at h
  split at h
  · rcases List.mem_append.mp h with h | h
    · exact Or.inl h
    · exact Or.inr (List.mem_singleton.mp h)
  · exact Or.inl h

/-- Make `v`, a node, a successor of `u`. -/
def link (g : Digraph ν) (u v : ν) (hv : v ∈ g.nodes) : Digraph ν where
  adjacency := g.adjacency.map (linkEntry u v)
  nodup_nodes := by
    rw [map_fst_map (linkEntry_fst u v)]
    exact g.nodup_nodes
  nodup_successors := by
    intro e he
    obtain ⟨d, hd, rfl⟩ := List.mem_map.mp he
    unfold linkEntry
    split
    · rename_i h
      refine List.nodup_append.mpr ⟨g.nodup_successors d hd, by simp, ?_⟩
      intro a ha b hb e
      simp only [List.mem_singleton] at hb
      exact h.2 (hb ▸ e ▸ ha)
    · exact g.nodup_successors d hd
  closed := by
    intro e he w hw
    rw [map_fst_map (linkEntry_fst u v)]
    obtain ⟨d, hd, rfl⟩ := List.mem_map.mp he
    rcases mem_linkEntry hw with hw | rfl
    · exact g.closed d hd w hw
    · exact hv

theorem mem_nodes_addNode {g : Digraph ν} {v w : ν} :
    w ∈ (g.addNode v).nodes ↔ w ∈ g.nodes ∨ w = v := by
  unfold addNode
  split
  · rename_i h
    constructor
    · exact Or.inl
    · rintro (hw | rfl)
      · exact hw
      · exact h
  · simp [nodes]

/-- Add an edge, and before it the ends that are missing, the source first. -/
def addEdge (g : Digraph ν) (u v : ν) : Digraph ν :=
  ((g.addNode u).addNode v).link u v (mem_nodes_addNode.mpr (Or.inr rfl))

theorem mem_nodes_addEdge {g : Digraph ν} {u v w : ν} :
    w ∈ (g.addEdge u v).nodes ↔ w ∈ g.nodes ∨ w = u ∨ w = v := by
  have : (g.addEdge u v).nodes = ((g.addNode u).addNode v).nodes :=
    map_fst_map (linkEntry_fst u v) _
  rw [this, mem_nodes_addNode, mem_nodes_addNode, or_assoc]

def addNodes (g : Digraph ν) (vs : List ν) : Digraph ν := vs.foldl addNode g

def addEdges (g : Digraph ν) (es : List (ν × ν)) : Digraph ν :=
  es.foldl (fun g e => g.addEdge e.1 e.2) g

theorem successors_subset {g : Digraph ν} {u v : ν} (h : v ∈ g.successors u) : v ∈ g.nodes := by
  unfold successors at h
  cases hf : g.adjacency.find? fun e => e.1 = u with
  | none => simp [hf] at h
  | some e =>
    simp only [hf, Option.map_some, Option.getD_some] at h
    exact g.closed e (List.mem_of_find?_eq_some hf) v h

end Digraph

end RepoSurvey
