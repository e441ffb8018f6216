import RepoSurvey.Organization.Analysis

/-!
# What the checks on the organization report on

A check goes through directories or scripts and makes at most one finding on each.

* `Organization.ReportsOn`: findings of a kind, on some of a list of names;
* `Organization.reportsOn_godDirectories` and its like: one lemma for each check;
* `Organization.of_mem_checkAll`: what the findings of all checks have in common.
-/

namespace RepoSurvey.Organization

variable {α : Type} {kind : FindingKind} {named : List String} {fs : List Finding}

/-- Findings of a kind on some of a list of names, one finding a name, in the order of the list. -/
structure ReportsOn (kind : FindingKind) (named : List String) (fs : List Finding) : Prop where
  paths : (fs.map (·.paths)).Sublist (named.map fun s => [s])
  kind : ∀ f ∈ fs, f.kind = kind
  domain : ∀ f ∈ fs, f.domain = domain

theorem ReportsOn.exists_name (h : ReportsOn kind named fs) {f : Finding} (hf : f ∈ fs) :
    ∃ s ∈ named, f.paths = [s] := by
  have hmem : f.paths ∈ named.map fun s => [s] := h.paths.subset (List.mem_map_of_mem hf)
  obtain ⟨s, hs, heq⟩ := List.mem_map.mp hmem
  exact ⟨s, hs, heq.symm⟩

theorem ReportsOn.nodup_paths (h : ReportsOn kind named fs) (hnamed : named.Nodup) :
    (fs.map (·.paths)).Nodup := by
  have hsingle : (named.map fun s => [s]).Nodup :=
    List.pairwise_map.mpr (hnamed.imp fun hne heq => hne (List.cons.inj heq).1)
  exact hsingle.sublist h.paths

/-- A check that makes a finding on what it is shown, or none. -/
theorem reportsOn_filterMap {items : List α} {name : α → String} {report : α → Option Finding}
    (h : ∀ a f, report a = some f → f.kind = kind ∧ f.domain = domain ∧ f.paths = [name a]) :
    ReportsOn kind (items.map name) (items.filterMap report) := by
  induction items with
  | nil => exact ⟨.slnil, by simp, by simp⟩
  | cons a items ih =>
    rw [List.filterMap_cons, List.map_cons]
    cases ha : report a with
    | none => exact ⟨ih.paths.cons _, ih.kind, ih.domain⟩
    | some f =>
      obtain ⟨hkind, hdomain, hpaths⟩ := h a f ha
      refine ⟨?_, List.forall_mem_cons.mpr ⟨hkind, ih.kind⟩,
        List.forall_mem_cons.mpr ⟨hdomain, ih.domain⟩⟩
      rw [List.map_cons, List.map_cons, hpaths]
      exact ih.paths.cons_cons _

/-- A check that makes a finding on everything with a fault. -/
theorem reportsOn_filter {items : List α} {name : α → String} {report : α → Finding}
    {isFault : α → Bool}
    (h : ∀ a, (report a).kind = kind ∧ (report a).domain = domain
      ∧ (report a).paths = [name a]) :
    ReportsOn kind (items.map name) ((items.filter isFault).map report) := by
  refine ⟨?_, List.forall_mem_map.mpr fun a _ => (h a).1,
    List.forall_mem_map.mpr fun a _ => (h a).2.1⟩
  have hpaths : ((items.filter isFault).map report).map (·.paths)
      = ((items.filter isFault).map name).map fun s => [s] := by
    rw [List.map_map, List.map_map]
    exact List.map_congr_left fun a _ => (h a).2.2
  rw [hpaths]
  exact (List.filter_sublist.map name).map _

/-! ## The checks -/

theorem reportsOn_godDirectories (i : Inventory) (threshold : Nat) :
    ReportsOn .godDirectory i.filesByDirectory.names (godDirectories i threshold) :=
  reportsOn_filter fun _ => ⟨rfl, rfl, rfl⟩

theorem reportsOn_mixedNamings (i : Inventory) (minFiles minBucket : Nat) :
    ReportsOn .mixedNamingConvention i.filesByDirectory.names
      (mixedNamings i minFiles minBucket) := by
  refine reportsOn_filterMap fun e f hf => ?_
  simp only [mixedNamingOf?] at hf
  obtain ⟨_, hf⟩ := Option.ite_none_left_eq_some.mp hf
  cases hf
  exact ⟨rfl, rfl, rfl⟩

theorem reportsOn_deepNestings (i : Inventory) (most : Nat) :
    ReportsOn .deepNesting (i.directories.map Path.joined) (deepNestings i most) :=
  reportsOn_filter fun _ => ⟨rfl, rfl, rfl⟩

theorem reportsOn_barrelBloats (texts : Contents) (threshold : Nat) :
    ReportsOn .barrelBloat (texts.map fun e => Path.joined e.1) (barrelBloats texts threshold) := by
  refine reportsOn_filterMap fun e f hf => ?_
  obtain ⟨_, hf⟩ := Option.ite_none_right_eq_some.mp hf
  obtain ⟨_, hf⟩ := Option.ite_none_right_eq_some.mp hf
  cases hf
  exact ⟨rfl, rfl, rfl⟩

theorem reportsOn_catchAlls (i : Inventory) (threshold : Nat) :
    ReportsOn .catchAllDirectory i.filesByDirectory.names (catchAlls i threshold) :=
  reportsOn_filter fun _ => ⟨rfl, rfl, rfl⟩

theorem reportsOn_mixedExports (texts : Contents) (fewest : Nat) :
    ReportsOn .godDirectory (texts.map fun e => Path.joined e.1) (mixedExports texts fewest) := by
  refine reportsOn_filterMap fun e f hf => ?_
  obtain ⟨_, hf⟩ := Option.ite_none_left_eq_some.mp hf
  obtain ⟨_, hf⟩ := Option.ite_none_left_eq_some.mp hf
  cases hf
  exact ⟨rfl, rfl, rfl⟩

/-! ## All of them -/

/-- The kinds of findings of the checks that need no graph. -/
def checkedKinds : List FindingKind :=
  [.godDirectory, .mixedNamingConvention, .deepNesting, .barrelBloat, .catchAllDirectory]

/-- What can be reported on: directories with scripts in them, directories, and scripts. -/
def reportable (i : Inventory) (texts : Contents) : List String :=
  i.filesByDirectory.names ++ i.directories.map Path.joined
    ++ texts.map fun e => Path.joined e.1

theorem of_mem_checkAll {c : Config} {i : Inventory} {texts : Contents} {f : Finding}
    (hf : f ∈ checkAll c i texts) :
    f.kind ∈ checkedKinds ∧ f.domain = domain ∧ ∃ s ∈ reportable i texts, f.paths = [s] := by
  have hof : ∀ {kind named fs}, ReportsOn kind named fs → kind ∈ checkedKinds →
      named ⊆ reportable i texts → f ∈ fs →
      f.kind ∈ checkedKinds ∧ f.domain = domain ∧ ∃ s ∈ reportable i texts, f.paths = [s] := by
    intro kind named fs hon hkind hnamed hf
    obtain ⟨s, hs, hpaths⟩ := hon.exists_name hf
    exact ⟨(hon.kind f hf).symm ▸ hkind, hon.domain f hf, s, hnamed hs, hpaths⟩
  have hheld : i.filesByDirectory.names ⊆ reportable i texts :=
    fun s hs => List.mem_append_left _ (List.mem_append_left _ hs)
  have hdirectories : i.directories.map Path.joined ⊆ reportable i texts :=
    fun s hs => List.mem_append_left _ (List.mem_append_right _ hs)
  have hscripts : (texts.map fun e => Path.joined e.1) ⊆ reportable i texts :=
    fun s hs => List.mem_append_right _ hs
  simp only [checkAll, List.mem_append] at hf
  rcases hf with ((((hf | hf) | hf) | hf) | hf) | hf
  · exact hof (reportsOn_godDirectories i _) (by decide) hheld hf
  · exact hof (reportsOn_mixedNamings i _ _) (by decide) hheld hf
  · exact hof (reportsOn_deepNestings i _) (by decide) hdirectories hf
  · exact hof (reportsOn_barrelBloats texts _) (by decide) hscripts hf
  · exact hof (reportsOn_catchAlls i _) (by decide) hheld hf
  · exact hof (reportsOn_mixedExports texts _) (by decide) hscripts hf

end RepoSurvey.Organization
