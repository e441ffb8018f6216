import RepoSurvey.Proofs.Organization.Findings

/-!
# No finding on the organization is reported twice

Each check goes through a list without repetition, and what it reports is told from what the other
checks report.

* `Finding.Alike`: two findings are of one kind and severity, and on the same paths;
* `Inventory.nodup_names_ofEntries`, `Inventory.nodup_directories`: what the checks go through;
* `Organization.pairwise_findings`: the findings of an analysis.
-/

namespace RepoSurvey

/-- Two findings look alike: they are of one kind, as severe as each other, and on the same
paths. -/
structure Finding.Alike (f g : Finding) : Prop where
  kind : f.kind = g.kind
  severity : f.severity = g.severity
  paths : f.paths = g.paths

/-! ## What the checks go through -/

theorem Path.nodup_map_joined {ps : List (List String)} (hps : ps.Nodup)
    (hproper : ∀ p ∈ ps, p ≠ [] ∧ ∀ s ∈ p, FileTree.EntryName s) :
    (ps.map Path.joined).Nodup := by
  have hsplit : ∀ p ∈ ps, splitSlashes (Path.joined p) = p :=
    fun p hp => splitSlashes_joined (hproper p hp).1 fun s hs => ((hproper p hp).2 s hs).slash_free
  refine hps.map_on fun p hp q hq heq => ?_
  rw [← hsplit p hp, heq, hsplit q hq]

namespace Inventory

theorem nodup_names_foldl_add {entries : List WalkEntry} {i : Inventory}
    (h : i.filesByDirectory.names.Nodup) :
    (entries.foldl add i).filesByDirectory.names.Nodup := by
  induction entries generalizing i with
  | nil => exact h
  | cons e entries ih =>
    apply ih
    unfold add
    split
    · exact h
    · split
      · exact Table.nodup_names_put h _ _
      · exact h

/-- Every directory with scripts in it is listed once. -/
theorem nodup_names_ofEntries (entries : List WalkEntry) :
    (ofEntries entries).filesByDirectory.names.Nodup :=
  nodup_names_foldl_add List.nodup_nil

variable {disk : Disk} {root : Path} {skip : NameSet}

theorem nodup_directories (hdisk : disk.WellFormed) (root : Path) (skip : NameSet) :
    ((collect disk root skip).directories.map Path.joined).Nodup := by
  have hentries := Walk.nodup_entries hdisk.distinct root skip
  rw [collect, ofEntries, directories_foldl_add]
  refine Path.nodup_map_joined (hentries.sublist (List.filter_sublist.map _)) fun p hp => ?_
  obtain ⟨e, he, rfl⟩ := List.mem_map.mp hp
  exact Walk.proper_of_mem_entries hdisk.named (List.mem_of_mem_filter he)

theorem nodup_files (hdisk : disk.WellFormed) (root : Path) (skip : NameSet) :
    (collect disk root skip).files.Nodup := by
  have hentries := Walk.nodup_entries hdisk.distinct root skip
  rw [collect, files_ofEntries]
  exact hentries.sublist (List.filter_sublist.map _)

end Inventory

namespace Organization

variable {disk : Disk} {root : Path} {c : Config} {skip : NameSet} {kind : FindingKind}
  {named : List String} {fs : List Finding}

theorem sublist_contents (disk : Disk) (root : Path) (i : Inventory) (limit : Int) :
    ((contents disk root i limit).map (·.1)).Sublist i.files := by
  unfold contents
  induction i.files with
  | nil => exact .slnil
  | cons path files ih =>
    rw [List.filterMap_cons]
    split
    · exact ih.cons _
    · rename_i found hfound
      have hpath : found.1 = path := by
        split at hfound
        · cases hfound
        · obtain ⟨_, heq⟩ := Option.ite_none_right_eq_some.mp hfound
          cases heq
          rfl
      rw [List.map_cons, hpath]
      exact ih.cons_cons _

theorem nodup_contents (hdisk : disk.WellFormed) (root : Path) (skip : NameSet) (limit : Int) :
    ((contents disk root (Inventory.collect disk root skip) limit).map
      fun e => Path.joined e.1).Nodup := by
  have hfiles := Inventory.nodup_files hdisk root skip
  have hpaths := hfiles.sublist (sublist_contents disk root _ limit)
  have hjoined := Path.nodup_map_joined hpaths fun p hp =>
    Inventory.proper_of_mem_files hdisk.named ((sublist_contents disk root _ limit).subset hp)
  rwa [List.map_map] at hjoined

/-! ## The findings -/

/-- What tells the findings of the checks apart: their kind, save that findings on mixed exports
have the kind of those on large directories but are less severe. -/
def mark (f : Finding) : Option FindingKind :=
  if f.kind = .godDirectory ∧ f.severity = .info then none else some f.kind

theorem not_alike_of_mark_ne {f g : Finding} (h : mark f ≠ mark g) : ¬ f.Alike g := by
  intro halike
  apply h
  rw [mark, mark, halike.kind, halike.severity]

/-- Findings with a mark of their own, no two of them alike. -/
def Marked (m : Option FindingKind) (fs : List Finding) : Prop :=
  fs.Pairwise (fun f g => ¬ f.Alike g) ∧ ∀ f ∈ fs, mark f = m

theorem marked_of_nodup {m : Option FindingKind} (h : (fs.map (·.paths)).Nodup)
    (hmark : ∀ f ∈ fs, mark f = m) : Marked m fs :=
  ⟨(List.pairwise_map.mp h).imp fun hne halike => hne halike.paths, hmark⟩

theorem ReportsOn.marked (h : ReportsOn kind named fs) (hnamed : named.Nodup)
    (hkind : kind ≠ .godDirectory) : Marked (some kind) fs := by
  refine marked_of_nodup (h.nodup_paths hnamed) fun f hf => ?_
  rw [mark, h.kind f hf, if_neg fun hinfo => hkind hinfo.1]

theorem severityOf_ne_info (count threshold : Nat) : severityOf count threshold ≠ .info := by
  unfold severityOf
  split <;> decide

theorem marked_godDirectories {i : Inventory} (h : i.filesByDirectory.names.Nodup)
    (threshold : Nat) : Marked (some .godDirectory) (godDirectories i threshold) := by
  have hon := reportsOn_godDirectories i threshold
  refine marked_of_nodup (hon.nodup_paths h) fun f hf => ?_
  obtain ⟨e, _, rfl⟩ := List.mem_map.mp hf
  exact if_neg fun hinfo => severityOf_ne_info _ _ hinfo.2

theorem marked_mixedExports {texts : Contents}
    (h : (texts.map fun e => Path.joined e.1).Nodup) (fewest : Nat) :
    Marked none (mixedExports texts fewest) := by
  have hon := reportsOn_mixedExports texts fewest
  refine marked_of_nodup (hon.nodup_paths h) fun f hf => ?_
  obtain ⟨e, _, hf⟩ := List.mem_filterMap.mp hf
  obtain ⟨_, hf⟩ := Option.ite_none_left_eq_some.mp hf
  obtain ⟨_, hf⟩ := Option.ite_none_left_eq_some.mp hf
  cases hf
  exact if_pos ⟨rfl, rfl⟩

theorem marked_circular {found : List (List String)} (hfound : found.Nodup)
    (h : Circular.findings found = .ok fs) : Marked (some .circularDependency) fs := by
  refine marked_of_nodup (by rwa [Circular.map_paths h]) fun f hf => ?_
  rw [mark, (Circular.of_mem_findings h hf).1]
  rfl

/-- No two findings of an analysis are alike. -/
theorem pairwise_findings (hdisk : disk.WellFormed) {a : Analysis}
    (h : analyze disk root c skip = .ok a) :
    a.findings.Pairwise fun f g => ¬ f.Alike g := by
  obtain ⟨found, hfound, h⟩ := bind_eq_ok_iff.mp h
  obtain ⟨circular, hcircular, h⟩ := bind_eq_ok_iff.mp h
  obtain ⟨g, _, hcycles⟩ := bind_eq_ok_iff.mp hfound
  cases h
  cases hcycles
  have hheld := Inventory.nodup_names_ofEntries
    (Walk.entries disk root (NameSet.union skip c.skipDirs))
  have hdirectories := Inventory.nodup_directories hdisk root (NameSet.union skip c.skipDirs)
  have hscripts := nodup_contents hdisk root (NameSet.union skip c.skipDirs) (c.fileSize : Nat)
  have hgod := marked_godDirectories hheld c.godDirectory
  have hnaming := (reportsOn_mixedNamings _ c.namingFiles c.namingBucket).marked hheld (by decide)
  have hnesting := (reportsOn_deepNestings _ c.nestingDepth).marked hdirectories (by decide)
  have hbarrel := (reportsOn_barrelBloats _ c.barrelBloat).marked hscripts (by decide)
  have hcatchAll := (reportsOn_catchAlls _ c.catchAll).marked hheld (by decide)
  have hexports := marked_mixedExports hscripts c.namedExports
  have hcycles := marked_circular (Digraph.nodup_cycles _ _ _) hcircular
  have hall := pairwise_flatten_of_tags (fun f g => not_alike_of_mark_ne)
    (.cons hgod (.cons hnaming (.cons hnesting (.cons hbarrel (.cons hcatchAll (.cons hexports
      (.cons hcycles .nil))))))) (by decide)
  simpa [checkAll, Inventory.collect] using hall

end Organization

end RepoSurvey
