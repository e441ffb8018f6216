import RepoSurvey.Proofs.Disk.Walk
import RepoSurvey.Proofs.Graph.CycleCompleteness
import RepoSurvey.Proofs.Import.Graph
import RepoSurvey.Proofs.Import.Resolve
import RepoSurvey.Proofs.Organization.Checks

/-!
# Circular imports of a repository

A script imports another if its text is short enough and holds a literal that is resolved to the
other. The circular imports that are reported are cycles of that relation, and there are some
exactly if the relation has a cycle.

* `Inventory.files_ofEntries`: the inventory holds the scripts of the walk;
* `Organization.Imports`: a script imports another;
* `Organization.adj_relabel`, `Organization.adj_importGraph`: the edges that are searched;
* `Organization.exists_analyze_ok_iff`: when the analysis succeeds;
* `Organization.circular_findings_iff`: the findings, against cycles of imports.
-/

namespace RepoSurvey

/-! ## The inventory -/

namespace Inventory

theorem files_foldl_add (entries : List WalkEntry) (i : Inventory) :
    (entries.foldl add i).files = i.files
      ++ (entries.filter fun e => !e.isDirectory && SourceFile.isScript e.name).map (·.path) := by
  induction entries generalizing i with
  | nil => simp
  | cons e entries ih =>
    rw [List.foldl_cons, ih]
    cases hd : e.isDirectory with
    | true => simp [add, addDirectory, hd]
    | false => cases hs : SourceFile.isScript e.name <;> simp [add, addFile, hd, hs]

theorem files_ofEntries (entries : List WalkEntry) : (ofEntries entries).files
    = (entries.filter fun e => !e.isDirectory && SourceFile.isScript e.name).map (·.path) :=
  files_foldl_add entries empty

theorem proper_of_mem_files {disk : Disk} (hnamed : disk.tree.Named) {root : Path} {skip : NameSet}
    {p : List String} (hp : p ∈ (collect disk root skip).files) :
    p ≠ [] ∧ ∀ s ∈ p, FileTree.EntryName s := by
  rw [collect, files_ofEntries] at hp
  obtain ⟨e, he, rfl⟩ := List.mem_map.mp hp
  exact Walk.proper_of_mem_entries hnamed (List.mem_of_mem_filter he)

end Inventory

/-! ## Findings on cycles -/

theorem Circular.of_finding {cycle : List String} {f : Finding} (h : finding cycle = .ok f) :
    f.kind = .circularDependency ∧ f.paths = cycle ∧ f.severity = severity f.paths := by
  cases cycle with
  | nil => cases h
  | cons first rest =>
    cases h
    exact ⟨rfl, rfl, rfl⟩

theorem Circular.domain_of_finding {cycle : List String} {f : Finding}
    (h : finding cycle = .ok f) : f.domain = Organization.domain := by
  cases cycle with
  | nil => cases h
  | cons first rest =>
    cases h
    rfl

theorem Circular.metadata_of_finding {cycle : List String} {f : Finding}
    (h : finding cycle = .ok f) :
    f.metadata = some [("cycleLength", .ofNat f.paths.length)] := by
  cases cycle with
  | nil => cases h
  | cons first rest =>
    cases h
    rfl

theorem Circular.severity_eq_critical_iff {ν : Type} {cycle : List ν} :
    severity cycle = .critical ↔ criticalLength < cycle.length := by
  unfold severity
  split
  · rename_i hlong
    exact iff_of_true rfl hlong
  · rename_i hshort
    exact iff_of_false (fun h => by cases h) hshort

theorem Circular.exists_findings_ok {cycles : List (List String)} (h : ∀ c ∈ cycles, c ≠ []) :
    ∃ fs, findings cycles = .ok fs := by
  refine exists_mapM_ok_iff.mpr fun c hc => ?_
  cases c with
  | nil => exact absurd rfl (h [] hc)
  | cons first rest => exact ⟨_, rfl⟩

theorem Circular.map_paths {cycles : List (List String)} {fs : List Finding}
    (h : findings cycles = .ok fs) : fs.map (·.paths) = cycles := by
  have hpaths := map_eq_of_mapM_eq_ok h fun cycle _ f hf => (of_finding hf).2.1
  rw [hpaths, List.map_id']

theorem Circular.of_mem_findings {cycles : List (List String)} {fs : List Finding}
    (h : findings cycles = .ok fs) {f : Finding} (hf : f ∈ fs) :
    f.kind = .circularDependency ∧ f.severity = severity f.paths := by
  obtain ⟨cycle, _, hcycle⟩ := (mem_of_mapM_eq_ok h f).mp hf
  exact ⟨(of_finding hcycle).1, (of_finding hcycle).2.2⟩

namespace Organization

/-- The checks that need no graph report no cycles. -/
theorem kind_ne_of_mem_checkAll {c : Config} {i : Inventory} {texts : Contents} {f : Finding}
    (hf : f ∈ checkAll c i texts) : f.kind ≠ .circularDependency := by
  intro hkind
  have hmem := (of_mem_checkAll hf).1
  rw [hkind] at hmem
  exact absurd hmem (by decide)

/-! ## The edges that are searched -/

/-- A script imports another: its text can be read, has at most `limit` characters, and holds a
literal that is resolved to the other. -/
structure Imports (disk : Disk) (root : Path) (limit : Nat) (scripts : List (List String))
    (p q : List String) : Prop where
  source : p ∈ scripts
  target : q ∈ scripts
  literal : ∃ text, disk.readLenient? (Path.below root p) = some text ∧ text.length ≤ limit
    ∧ ∃ literal ∈ Import.literals text,
      Import.resolve disk (Path.below root p) literal = .ok (some (Path.below root q))

theorem relativeText_below (root : Path) {p : List String} (hp : p ≠ []) :
    relativeText root (Path.below root p) = Path.joined p := by
  rw [relativeText, Path.below, List.drop_left, Path.text_relative hp]

theorem adj_relabel {ν μ : Type} [DecidableEq ν] [DecidableEq μ] {f : ν → μ} {g : Digraph ν}
    {a b : μ} : (relabel f g).Adj a b ↔ ∃ u v, g.Adj u v ∧ f u = a ∧ f v = b := by
  rw [relabel, Digraph.adj_addEdges, Digraph.adj_addNodes, or_iff_right (Digraph.not_adj_empty a b),
    List.mem_map]
  constructor
  · rintro ⟨e, he, heq⟩
    cases heq
    exact ⟨e.1, e.2, Digraph.mem_edges.mp he, rfl, rfl⟩
  · rintro ⟨u, v, huv, rfl, rfl⟩
    exact ⟨(u, v), Digraph.mem_edges.mpr huv, rfl⟩

theorem adj_importGraph {disk : Disk} {root : Path} {limit : Nat} {scripts : List (List String)}
    {g : Digraph Path} (hscripts : ∀ p ∈ scripts, p ≠ [])
    (h : Import.graph disk (scripts.map (Path.below root)) limit = .ok g) (a b : String) :
    (relabel (relativeText root) g).Adj a b ↔ ∃ p q, Imports disk root limit scripts p q
      ∧ Path.joined p = a ∧ Path.joined q = b := by
  rw [adj_relabel]
  constructor
  · rintro ⟨u, v, huv, rfl, rfl⟩
    obtain ⟨hu, hv, literal, hliteral, hresolve⟩ := (Import.adj_graph h u v).mp huv
    obtain ⟨p, hp, rfl⟩ := List.mem_map.mp hu
    obtain ⟨q, hq, rfl⟩ := List.mem_map.mp hv
    obtain ⟨text, htext, hlength, hmem⟩ := Import.mem_ofFile.mp hliteral
    refine ⟨p, q, ⟨hp, hq, text, htext, by omega, literal, hmem, hresolve⟩, ?_, ?_⟩
    · rw [relativeText_below root (hscripts p hp)]
    · rw [relativeText_below root (hscripts q hq)]
  · rintro ⟨p, q, ⟨hp, hq, text, htext, hlength, literal, hmem, hresolve⟩, rfl, rfl⟩
    refine ⟨Path.below root p, Path.below root q, (Import.adj_graph h _ _).mpr ⟨?_, ?_, ?_⟩, ?_, ?_⟩
    · exact List.mem_map_of_mem hp
    · exact List.mem_map_of_mem hq
    · exact ⟨literal, Import.mem_ofFile.mpr ⟨text, htext, by omega, hmem⟩, hresolve⟩
    · exact relativeText_below root (hscripts p hp)
    · exact relativeText_below root (hscripts q hq)

/-! ## The findings -/

/-- The scripts of a repository, by their paths from the top. -/
def scripts (disk : Disk) (root : Path) (c : Config) (skip : NameSet) : List (List String) :=
  (Inventory.collect disk root (NameSet.union skip c.skipDirs)).files

/-- The findings on circular imports. -/
def Analysis.circular (a : Analysis) : List Finding :=
  a.findings.filter fun f => f.kind = .circularDependency

variable {disk : Disk} {root : Path} {c : Config} {skip : NameSet} {a : Analysis}

/-- Beside the findings of the other checks, those on circular imports are the ones on the
cycles. -/
theorem circular_eq {found : List (List String)} {fs : List Finding}
    (h : Circular.findings found = .ok fs) (i : Inventory) (texts : Contents)
    (stats : OrganizationStats) :
    Analysis.circular ⟨checkAll c i texts ++ fs, stats⟩ = fs := by
  rw [Analysis.circular, List.filter_append, List.filter_eq_nil_iff.mpr, List.nil_append,
    List.filter_eq_self.mpr]
  · intro f hf
    simpa using (Circular.of_mem_findings h hf).1
  · intro f hf
    simpa using kind_ne_of_mem_checkAll hf

theorem analyze_eq_ok (h : analyze disk root c skip = .ok a) :
    ∃ g, Import.graph disk ((scripts disk root c skip).map (Path.below root)) c.fileSize = .ok g
      ∧ Circular.findings ((relabel (relativeText root) g).cycles id none) = .ok a.circular
      ∧ a.stats.circularDependencies
          = ((relabel (relativeText root) g).cycles id none).length := by
  obtain ⟨found, hfound, h⟩ := bind_eq_ok_iff.mp h
  obtain ⟨g, hg, hcycles⟩ := bind_eq_ok_iff.mp hfound
  obtain ⟨circular, hcircular, hresult⟩ := bind_eq_ok_iff.mp h
  cases hcycles
  cases hresult
  exact ⟨g, hg, by rw [circular_eq hcircular, hcircular], rfl⟩

/-- The analysis fails only where an import cannot be resolved. -/
theorem exists_analyze_ok_iff : (∃ a, analyze disk root c skip = .ok a)
    ↔ ∀ p ∈ scripts disk root c skip,
      ∀ literal ∈ Import.ofFile disk (Path.below root p) (c.fileSize : Nat),
        Import.Resolvable disk (Path.below root p) literal := by
  have hgraph : (∃ a, analyze disk root c skip = .ok a)
      ↔ ∃ g, Import.graph disk ((scripts disk root c skip).map (Path.below root))
          (c.fileSize : Nat) = .ok g := by
    constructor
    · rintro ⟨a, h⟩
      obtain ⟨g, hg, _⟩ := analyze_eq_ok h
      exact ⟨g, hg⟩
    · rintro ⟨g, hg⟩
      have hne : ∀ found ∈ (relabel (relativeText root) g).cycles id none, found ≠ [] :=
        fun found hfound => (Digraph.cycle_of_mem_cycles hfound).nonempty
      obtain ⟨fs, hfs⟩ := Circular.exists_findings_ok hne
      exact ⟨_, bind_eq_ok_iff.mpr ⟨_, bind_eq_ok_iff.mpr ⟨g, hg, rfl⟩,
        bind_eq_ok_iff.mpr ⟨fs, hfs, rfl⟩⟩⟩
  rw [hgraph, Import.exists_graph_ok_iff, List.forall_mem_map]
  exact forall₂_congr fun p _ => forall₂_congr fun literal _ => Import.exists_resolve_ok_iff

/-- Every finding on circular imports lists the paths of a cycle of imports, without repetition.
There is such a finding exactly if there is a cycle of imports. They are counted, and those with
more than three members are critical. -/
theorem circular_findings_iff (hnamed : disk.tree.Named) (h : analyze disk root c skip = .ok a) :
    (∀ f ∈ a.circular, f.paths.Nodup ∧ ∃ members,
        Cycle (Imports disk root c.fileSize (scripts disk root c skip)) members
          ∧ f.paths = members.map Path.joined)
      ∧ ((∃ f, f ∈ a.circular) ↔ ∃ members,
          Cycle (Imports disk root c.fileSize (scripts disk root c skip)) members)
      ∧ a.stats.circularDependencies = a.circular.length
      ∧ ∀ f ∈ a.circular, f.severity = .critical ↔ 3 < f.paths.length := by
  obtain ⟨g, hg, hfindings, hcount⟩ := analyze_eq_ok h
  have hproper : ∀ p ∈ scripts disk root c skip, p ≠ [] ∧ ∀ s ∈ p, FileTree.EntryName s :=
    fun p hp => Inventory.proper_of_mem_files hnamed hp
  have hsplit : ∀ p ∈ scripts disk root c skip, splitSlashes (Path.joined p) = p :=
    fun p hp => splitSlashes_joined (hproper p hp).1 fun s hs => ((hproper p hp).2 s hs).slash_free
  have hcycle := cycle_image_iff Path.joined splitSlashes
    (fun p q hpq => ⟨hsplit p hpq.source, hsplit q hpq.target⟩)
    (adj_importGraph (fun p hp => (hproper p hp).1) hg)
  have hpaths := Circular.map_paths hfindings
  have hreal : ∀ f ∈ a.circular, f.paths.Nodup ∧ ∃ members,
      Cycle (Imports disk root c.fileSize (scripts disk root c skip)) members
        ∧ f.paths = members.map Path.joined := by
    intro f hf
    have hmem : f.paths ∈ (relabel (relativeText root) g).cycles id none :=
      hpaths ▸ List.mem_map_of_mem hf
    have hfound := Digraph.cycle_of_mem_cycles hmem
    exact ⟨hfound.nodup, (hcycle f.paths).mp hfound⟩
  refine ⟨hreal, ⟨?_, ?_⟩, ?_, fun f hf => ?_⟩
  · rintro ⟨f, hf⟩
    obtain ⟨_, members, hmembers, _⟩ := hreal f hf
    exact ⟨members, hmembers⟩
  · rintro ⟨members, hmembers⟩
    have hwalk := ((hcycle _).mpr ⟨members, hmembers, rfl⟩).toClosedWalk
    obtain ⟨_, _, _, _, found, hfound, _⟩ :=
      Digraph.exists_cycle_of_closedWalk _ id none hwalk hwalk.reachedFrom_nodes
    rw [← hpaths] at hfound
    obtain ⟨f, hf, _⟩ := List.mem_map.mp hfound
    exact ⟨f, hf⟩
  · rw [hcount, ← hpaths, List.length_map]
  · rw [(Circular.of_mem_findings hfindings hf).2, Circular.severity_eq_critical_iff]
    rfl

/-- Four scripts in a ring, two of them in a directory that one import leads to. -/
def ringDisk : Disk where
  tree := .directory [("r", .directory [
    ("a.ts", .file (Utf8.encode "import { b } from './lib'".toList)),
    ("c.js", .file (Utf8.encode "require('./a.ts')".toList)),
    ("lib", .directory [
      ("b.ts", .file (Utf8.encode "import('../c')".toList)),
      ("index.ts", .file (Utf8.encode "export * from './b'".toList))])])]

theorem circular_findings_iff_ring : ∃ a, ringDisk.tree.Named
    ∧ analyze ringDisk ⟨true, ["r"]⟩ {} [] = .ok a
    ∧ a.circular.map (fun f => (f.paths, f.severity))
        = [(["a.ts", "lib/index.ts", "lib/b.ts", "c.js"], .critical)]
    ∧ (∃ members, Cycle (Imports ringDisk ⟨true, ["r"]⟩ 500000
        (scripts ringDisk ⟨true, ["r"]⟩ {} [])) members)
    ∧ a.stats.circularDependencies = 1 := by
  have hnamed : ringDisk.tree.Named := by decide +kernel
  have hfound : ((analyze ringDisk ⟨true, ["r"]⟩ {} []).toOption.map fun a =>
      a.circular.map fun f => (f.paths, f.severity))
        = some [(["a.ts", "lib/index.ts", "lib/b.ts", "c.js"], .critical)] := by
    decide +kernel
  cases h : analyze ringDisk ⟨true, ["r"]⟩ {} [] with
  | error e =>
    rw [h] at hfound
    cases hfound
  | ok a =>
    rw [h] at hfound
    have hcircular : a.circular.map (fun f => (f.paths, f.severity))
        = [(["a.ts", "lib/index.ts", "lib/b.ts", "c.js"], .critical)] := Option.some.inj hfound
    have hlength : a.circular.length = 1 := by simpa using congrArg List.length hcircular
    obtain ⟨_, hcycle, hcount, _⟩ := circular_findings_iff hnamed h
    refine ⟨a, hnamed, rfl, hcircular, hcycle.mp ?_, by rw [hcount, hlength]; rfl⟩
    exact List.exists_mem_of_length_pos (by omega)

end Organization

end RepoSurvey
