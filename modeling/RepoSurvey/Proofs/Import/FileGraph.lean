import RepoSurvey.Proofs.Graph.Order
import RepoSurvey.Proofs.Import.Graph
import RepoSurvey.Proofs.Workers

/-!
# The import graph of some files

The files are the nodes in their order, and the successors of a file stand in the order of the
literals that lead to them. Fewer files have the part of the graph that is between them.

* `Import.imported`: where the imports of a file lead, import by import;
* `Import.adjacency_graph`: the entries of the graph;
* `Import.GraphOf`, `Import.graphOf_graph`: nodes, edges and their order;
* `Import.exists_induced`: the graph of fewer files;
* `Import.gathered_iff`: workers that look up the imports of the files beside each other come to
  the same graph;
* `Import.graph_of_files`: all together.
-/

namespace RepoSurvey.Import

variable {disk : Disk} {limit : Int} {files : List Path} {g : Digraph Path}

/-- Where the imports of a file lead, in the order of its literals. -/
def imported (disk : Disk) (limit : Int) (path : Path) : List Path :=
  (ofFile disk path limit).filterMap fun literal => (resolve disk path literal).toOption.join

theorem targets_eq {path : Path} {found : List Path} (h : targets disk limit path = .ok found) :
    found = imported disk limit path := by
  obtain ⟨resolved, hresolved, hfound⟩ := bind_eq_ok_iff.mp h
  cases hfound
  have hmap : resolved.map id = (ofFile disk path limit).map fun literal =>
      (resolve disk path literal).toOption.join := by
    refine map_eq_of_mapM_eq_ok hresolved ?_
    intro literal _ target htarget
    rw [htarget]
    rfl
  rw [List.map_id] at hmap
  rw [hmap, imported, List.filterMap_map, Function.id_comp]

/-- The targets of a file, of all the edges from distinct files. -/
theorem targetsFrom_flatMap (hfiles : files.Nodup) (f : Path → List Path) (s : Path) :
    Digraph.targetsFrom (files.flatMap fun u => (f u).map fun v => (u, v)) s
      = if s ∈ files then f s else [] := by
  induction files with
  | nil => rfl
  | cons u files ih =>
    obtain ⟨hu, hfiles⟩ := List.nodup_cons.mp hfiles
    have hsplit : Digraph.targetsFrom
        ((u :: files).flatMap fun u => (f u).map fun v => (u, v)) s
          = Digraph.targetsFrom ((f u).map fun v => (u, v)) s ++ if s ∈ files then f s else [] := by
      rw [← ih hfiles]
      simp [Digraph.targetsFrom]
    rw [hsplit]
    by_cases hus : u = s
    · subst hus
      rw [if_neg hu, if_pos List.mem_cons_self]
      simp [Digraph.targetsFrom, List.filter_map, Function.comp_def]
    · have hsu : ¬ s = u := fun h => hus h.symm
      simp [Digraph.targetsFrom, List.filter_map, Function.comp_def, hus, hsu]

/-- The graph of distinct files: each with the files of the list that its imports lead to, in the
order in which they are first led to. -/
theorem adjacency_graph (hfiles : files.Nodup) (h : graph disk files limit = .ok g) :
    g.adjacency = files.map fun s =>
      (s, ((imported disk limit s).filter files.contains).eraseDups) := by
  obtain ⟨targetLists, htargets, hgraph⟩ := bind_eq_ok_iff.mp h
  cases hgraph
  have hlists : targetLists = files.map (imported disk limit) := by
    have hmap := map_eq_of_mapM_eq_ok htargets (g := id) (k := imported disk limit)
      fun s _ found hfound => targets_eq hfound
    rwa [List.map_id] at hmap
  have hedges : edges files targetLists = files.flatMap fun u =>
      ((imported disk limit u).filter files.contains).map fun v => (u, v) := by
    have hzip : files.zip (files.map (imported disk limit))
        = files.map fun u => (u, imported disk limit u) := by
      simpa using List.zip_map' (f := id) (g := imported disk limit) (l := files)
    rw [edges, hlists, hzip, List.flatMap_map]
  have hstart := Digraph.adjacency_addNodes hfiles
  have hnodes : ((Digraph.empty : Digraph Path).addNodes files).nodes = files := by
    simp [Digraph.nodes, hstart, Function.comp_def]
  rw [hedges, Digraph.adjacency_addEdges, hstart, List.map_map]
  · refine List.map_congr_left ?_
    intro s hs
    show (s, _) = (s, _)
    rw [targetsFrom_flatMap hfiles fun u => (imported disk limit u).filter files.contains,
      if_pos hs]
  · intro e he
    rw [hstart] at he
    obtain ⟨s, _, rfl⟩ := List.mem_map.mp he
    rfl
  · intro e he
    obtain ⟨u, hu, he⟩ := List.mem_flatMap.mp he
    obtain ⟨v, hv, rfl⟩ := List.mem_map.mp he
    rw [hnodes]
    exact ⟨hu, by simpa using (List.mem_filter.mp hv).2⟩

theorem nodes_graph (hfiles : files.Nodup) (h : graph disk files limit = .ok g) :
    g.nodes = files := by
  simp [Digraph.nodes, adjacency_graph hfiles h, Function.comp_def]

theorem successors_graph (hfiles : files.Nodup) (h : graph disk files limit = .ok g) {s : Path}
    (hs : s ∈ files) :
    g.successors s = ((imported disk limit s).filter files.contains).eraseDups := by
  apply Digraph.successors_eq
  rw [adjacency_graph hfiles h]
  exact List.mem_map.mpr ⟨s, hs, rfl⟩

/-! ## Nodes, edges and their order -/

/-- Among the literals of a file there is one that leads to `t` before all that lead to `t'`. -/
def LeadsFirst (disk : Disk) (limit : Int) (s t t' : Path) : Prop :=
  ∃ before literal after, ofFile disk s limit = before ++ literal :: after
    ∧ resolve disk s literal = .ok (some t)
    ∧ ∀ other ∈ before, resolve disk s other ≠ .ok (some t')

/-- The graph of the imports between some files. -/
structure GraphOf (disk : Disk) (limit : Int) (files : List Path) (g : Digraph Path) : Prop where
  nodes : g.nodes = files
  adj : ∀ s ∈ files, ∀ t, g.Adj s t ↔ t ∈ files
    ∧ ∃ literal ∈ ofFile disk s limit, resolve disk s literal = .ok (some t)
  once : ∀ s ∈ files, (g.successors s).Nodup
  inOrder : ∀ s ∈ files, (g.successors s).Pairwise (LeadsFirst disk limit s)

/-- What is led to before, among the files of the list, is led to by an earlier literal. -/
theorem leadsFirst_of_split {s t t' : Path} (ht' : t' ∈ files) {front back : List Path}
    (h : (imported disk limit s).filter files.contains = front ++ t :: back) (hfront : t' ∉ front) :
    LeadsFirst disk limit s t t' := by
  obtain ⟨passed, rest, himported, hpassed, hrest⟩ := List.filter_eq_append_iff.mp h
  obtain ⟨skipped, left, rfl, hskipped, _, _⟩ := List.filter_eq_cons_iff.mp hrest
  rw [← List.append_assoc] at himported
  obtain ⟨before, after, hliterals, hbefore, hafter⟩ := List.filterMap_eq_append_iff.mp himported
  obtain ⟨gap, literal, after, rfl, hgap, hliteral, _⟩ := List.filterMap_eq_cons_iff.mp hafter
  have hled : ∀ {x : Except SurveyError (Option Path)} {p : Path}, x.toOption.join = some p →
      x = .ok (some p) := by
    intro x p hx
    cases x <;> simp_all [Except.toOption]
  refine ⟨before ++ gap, literal, after, by rw [hliterals, List.append_assoc], hled hliteral, ?_⟩
  intro other hother hresolve
  have hjoin : (resolve disk s other).toOption.join = some t' := by
    rw [hresolve]
    rfl
  rcases List.mem_append.mp hother with hmem | hmem
  · have hled' : t' ∈ passed ++ skipped := by
      rw [← hbefore]
      exact List.mem_filterMap.mpr ⟨other, hmem, hjoin⟩
    rcases List.mem_append.mp hled' with hin | hin
    · rw [← hpassed] at hfront
      exact hfront (List.mem_filter.mpr ⟨hin, by simpa using ht'⟩)
    · exact hskipped t' hin (by simpa using ht')
  · rw [hgap other hmem] at hjoin
    cases hjoin

theorem graphOf_graph (hfiles : files.Nodup) (h : graph disk files limit = .ok g) :
    GraphOf disk limit files g where
  nodes := nodes_graph hfiles h
  adj := by
    intro s hs t
    rw [adj_graph h]
    exact and_iff_right hs
  once := by
    intro s hs
    rw [successors_graph hfiles h hs]
    exact nodup_eraseDups _
  inOrder := by
    intro s hs
    rw [successors_graph hfiles h hs]
    refine (pairwise_eraseDups _).imp_of_mem ?_
    rintro t t' _ ht' ⟨front, back, hsplit, hfront⟩
    have hmem := (List.mem_filter.mp (List.mem_eraseDups.mp ht')).2
    exact leadsFirst_of_split (by simpa using hmem) hsplit hfront

/-! ## Fewer files -/

/-- Fewer files have a graph if all of them have one, and it is the part between them. -/
theorem exists_induced (hfiles : files.Nodup) (h : graph disk files limit = .ok g)
    {part : List Path} (hpart : part.Sublist files) :
    ∃ h, graph disk part limit = .ok h ∧ g.Induced part h := by
  have hall := exists_graph_ok_iff.mp ⟨g, h⟩
  obtain ⟨g', hg'⟩ := exists_graph_ok_iff.mpr fun path hpath => hall path (hpart.subset hpath)
  refine ⟨g', hg', nodes_graph (hpart.nodup hfiles) hg', ?_⟩
  intro s hs
  rw [successors_graph (hpart.nodup hfiles) hg' hs, successors_graph hfiles h (hpart.subset hs),
    filter_eraseDups, List.filter_filter]
  refine congrArg List.eraseDups (List.filter_congr ?_)
  intro t _
  have hsub : t ∈ part → t ∈ files := fun ht => hpart.subset ht
  by_cases ht : t ∈ part
  · simp [ht, hsub ht]
  · simp [ht]

/-! ## Workers -/

/-- The graph that is put together from what was found for each file. -/
def assemble (files : List Path) (found : List (Except SurveyError (List Path))) :
    Except SurveyError (Digraph Path) := do
  let targetLists ← found.mapM id
  return (Digraph.empty.addNodes files).addEdges (edges files targetLists)

/-- The graph, or the failure, that workers come to who look up the imports of the files beside
each other; there is always at least one of them. -/
def Gathered (workers : Int) (disk : Disk) (limit : Int) (files : List Path)
    (outcome : Except SurveyError (Digraph Path)) : Prop :=
  ∃ found, Workers.Delivers (max 1 workers).toNat (targets disk limit) files found
    ∧ assemble files found = outcome

theorem assemble_targets (disk : Disk) (limit : Int) (files : List Path) :
    assemble files (files.map (targets disk limit)) = graph disk files limit := by
  rw [assemble, List.mapM_map]
  rfl

theorem gathered_iff {workers : Int} {outcome : Except SurveyError (Digraph Path)} :
    Gathered workers disk limit files outcome ↔ outcome = graph disk files limit := by
  have hcount : 1 ≤ (max 1 workers).toNat := by omega
  constructor
  · rintro ⟨found, hfound, rfl⟩
    rw [(Workers.delivers_iff hcount).mp hfound, assemble_targets]
  · rintro rfl
    exact ⟨_, (Workers.delivers_iff hcount).mpr rfl, assemble_targets disk limit files⟩

/-! ## All together -/

/-- The graph of distinct files has these as its nodes, an edge for every import that leads from one
to another, and the successors of a file in the order of the first literals that lead to them. Any
part of the files has the part of the graph that is between them, with everything in the same
order. This is so for every number of workers and however their steps interleave. -/
theorem graph_of_files (hfiles : files.Nodup) (h : graph disk files limit = .ok g) :
    GraphOf disk limit files g
    ∧ ∀ part : List Path, part.Sublist files → ∃ g', g.Induced part g'
      ∧ ∀ workers outcome, Gathered workers disk limit part outcome ↔ outcome = .ok g' := by
  refine ⟨graphOf_graph hfiles h, ?_⟩
  intro part hpart
  obtain ⟨g', hg', hinduced⟩ := exists_induced hfiles h hpart
  refine ⟨g', hinduced, ?_⟩
  intro workers outcome
  rw [gathered_iff, hg']

/-- A script that imports itself, another one twice over in two ways, and one that is not of the
list. -/
def linkedDisk : Disk where
  tree := .directory [("r", .directory [
    ("a.ts", .file (Utf8.encode
      "import './c.ts';\nimport x from './b';\nimport y from './a';\nrequire('./c');".toList)),
    ("b.ts", .file (Utf8.encode "export * from './c';\nimport './out';".toList)),
    ("c.ts", .file []),
    ("out.ts", .file [])])]

def scripts (names : List String) : List Path := names.map fun name => ⟨true, ["r", name]⟩

theorem graph_of_files_linked : (scripts ["b.ts", "a.ts", "c.ts"]).Nodup
    ∧ (scripts ["a.ts", "c.ts"]).Sublist (scripts ["b.ts", "a.ts", "c.ts"])
    ∧ ∃ g, graph linkedDisk (scripts ["b.ts", "a.ts", "c.ts"]) 100 = .ok g
      ∧ g.edges.map (fun e => (e.1.name, e.2.name)) = [("b.ts", "c.ts"), ("a.ts", "c.ts"),
        ("a.ts", "b.ts"), ("a.ts", "a.ts")]
      ∧ GraphOf linkedDisk 100 (scripts ["b.ts", "a.ts", "c.ts"]) g
      ∧ ∃ g', g.Induced (scripts ["a.ts", "c.ts"]) g'
        ∧ ∀ workers outcome, Gathered workers linkedDisk 100 (scripts ["a.ts", "c.ts"]) outcome
          ↔ outcome = .ok g' := by
  have hfiles : (scripts ["b.ts", "a.ts", "c.ts"]).Nodup := by decide
  have hpart : (scripts ["a.ts", "c.ts"]).Sublist (scripts ["b.ts", "a.ts", "c.ts"]) := by decide
  have hedges : (graph linkedDisk (scripts ["b.ts", "a.ts", "c.ts"]) 100).toOption.map
      (fun g => g.edges.map fun e => (e.1.name, e.2.name)) = some [("b.ts", "c.ts"),
        ("a.ts", "c.ts"), ("a.ts", "b.ts"), ("a.ts", "a.ts")] := by
    -- the characters of the literals are read off them, which is quicker than decoding bytes
    unfold linkedDisk
    rw [String.toList_ofList, String.toList_ofList]
    decide +kernel
  obtain ⟨g, hg, hlist⟩ := exists_ok_of_map_toOption hedges
  obtain ⟨hgraph, hparts⟩ := graph_of_files hfiles hg
  exact ⟨hfiles, hpart, g, hg, hlist, hgraph, hparts _ hpart⟩

end RepoSurvey.Import
