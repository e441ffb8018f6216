import RepoSurvey.Import.Graph
import RepoSurvey.Proofs.Graph.Edges
import RepoSurvey.Proofs.Traversal

/-!
# The edges of the import graph

* `Import.mem_ofFile`: a file has the imports of its text, if that can be read and is short
  enough;
* `Import.mem_targets`: the targets of a file are what its imports are resolved to;
* `Import.adj_graph`: there is an edge between two of the files where one imports the other;
* `Import.exists_graph_ok_iff`: when there is a graph.
-/

namespace RepoSurvey.Import

variable {disk : Disk} {limit : Int}

theorem mem_ofFile {path : Path} {literal : String} : literal ∈ ofFile disk path limit
    ↔ ∃ text, disk.readLenient? path = some text ∧ text.length ≤ limit
      ∧ literal ∈ literals text := by
  unfold ofFile
  cases disk.readLenient? path with
  | none => simp
  | some text =>
    by_cases hlong : text.length > limit
    · simp [hlong, Int.not_le.mpr hlong]
    · simp [hlong, Int.not_lt.mp hlong]

theorem mem_targets {path target : Path} {targetList : List Path}
    (h : targets disk limit path = .ok targetList) :
    target ∈ targetList
      ↔ ∃ literal ∈ ofFile disk path limit, resolve disk path literal = .ok (some target) := by
  obtain ⟨found, hfound, hlist⟩ := bind_eq_ok_iff.mp h
  cases hlist
  rw [← mem_of_mapM_eq_ok hfound]
  simp

theorem mem_edges {files : List Path} {targetLists : List (List Path)}
    (h : files.mapM (targets disk limit) = .ok targetLists) (u v : Path) :
    (u, v) ∈ edges files targetLists ↔ u ∈ files ∧ v ∈ files
      ∧ ∃ literal ∈ ofFile disk u limit, resolve disk u literal = .ok (some v) := by
  unfold edges
  rw [List.mem_flatMap]
  constructor
  · rintro ⟨⟨source, targetList⟩, hzip, hmem⟩
    obtain ⟨hsource, htargets⟩ := (mem_zip_of_mapM_eq_ok h _ _).mp hzip
    obtain ⟨target, htarget, heq⟩ := List.mem_map.mp hmem
    obtain ⟨hin, hfile⟩ := List.mem_filter.mp htarget
    cases heq
    exact ⟨hsource, by simpa using hfile, (mem_targets htargets).mp hin⟩
  · rintro ⟨hu, hv, himport⟩
    obtain ⟨targetList, htargets⟩ := exists_mapM_ok_iff.mp ⟨_, h⟩ u hu
    refine ⟨(u, targetList), (mem_zip_of_mapM_eq_ok h _ _).mpr ⟨hu, htargets⟩, ?_⟩
    refine List.mem_map.mpr ⟨v, List.mem_filter.mpr ⟨(mem_targets htargets).mpr himport, ?_⟩, rfl⟩
    simpa using hv

theorem adj_graph {files : List Path} {g : Digraph Path} (h : graph disk files limit = .ok g)
    (u v : Path) : g.Adj u v ↔ u ∈ files ∧ v ∈ files
      ∧ ∃ literal ∈ ofFile disk u limit, resolve disk u literal = .ok (some v) := by
  obtain ⟨targetLists, htargets, hgraph⟩ := bind_eq_ok_iff.mp h
  cases hgraph
  rw [Digraph.adj_addEdges, Digraph.adj_addNodes, mem_edges htargets]
  exact or_iff_right (Digraph.not_adj_empty u v)

theorem exists_targets_ok_iff {path : Path} : (∃ list, targets disk limit path = .ok list)
    ↔ ∀ literal ∈ ofFile disk path limit, ∃ found, resolve disk path literal = .ok found :=
  exists_bind_pure_ok_iff.trans exists_mapM_ok_iff

/-- There is a graph if every import of every file is resolved, be it to nothing. -/
theorem exists_graph_ok_iff {files : List Path} : (∃ g, graph disk files limit = .ok g)
    ↔ ∀ path ∈ files, ∀ literal ∈ ofFile disk path limit,
      ∃ found, resolve disk path literal = .ok found := by
  refine exists_bind_pure_ok_iff.trans (exists_mapM_ok_iff.trans ?_)
  exact forall₂_congr fun path _ => exists_targets_ok_iff

end RepoSurvey.Import
