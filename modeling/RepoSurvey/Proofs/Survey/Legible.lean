import RepoSurvey.Proofs.Organization.Distinct
import RepoSurvey.Proofs.Report.Faithful
import RepoSurvey.Proofs.Survey.Detections
import RepoSurvey.Proofs.Survey.Distinct

/-!
# Results that are not lost in writing

* `Catalog.readsBack_confidence`: the confidences of the catalog are read back from their text;
* `Design.metadata_of_mem_findings`: nothing is noted with findings on the design system;
* `Organization.legible_of_analyze`: what is noted with findings on the organization is read back;
* `Survey.legible_of_run`: so is all that a survey gives.
-/

namespace RepoSurvey

/-! ## The catalog -/

theorem Catalog.readsBack_confidence :
    ∀ r ∈ Catalog.rules, r.confidence.toBinary64.ReadsBack := by
  decide +kernel

/-! ## The design system -/

namespace Design

variable {disk : Disk} {root : Path} {workspaces : List Workspace}

theorem metadata_of_mem_missingLayers {l : Layers} {f : Finding} (hf : f ∈ missingLayers l) :
    f.metadata = none := by
  simp only [missingLayers, List.mem_append, List.mem_ite_nil_right, List.mem_singleton] at hf
  rcases hf with (⟨_, rfl⟩ | ⟨_, rfl⟩) | ⟨_, rfl⟩ <;> rfl

theorem metadata_of_mem_violations {l : Layers} {fs : List Finding}
    (h : violations disk root l workspaces = .ok fs) {f : Finding} (hf : f ∈ fs) :
    f.metadata = none := by
  obtain ⟨found, hfound, h⟩ := bind_eq_ok_iff.mp h
  cases h
  obtain ⟨w, _, ys, hys, hf⟩ := exists_of_mem_flatten hfound hf
  rcases violationsOf_eq_ok hys with rfl | ⟨_, _, _, _, rfl⟩
  · cases hf
  · obtain ⟨target, _, rfl⟩ := List.mem_map.mp hf
    rfl

/-- Nothing is noted with a finding on the design system. -/
theorem metadata_of_mem_findings {a : Analysis} (h : analyze disk root workspaces = .ok a)
    {f : Finding} (hf : f ∈ a.findings) : f.metadata = none := by
  obtain ⟨upward, hupward, h⟩ := bind_eq_ok_iff.mp h
  obtain ⟨presets, hpresets, h⟩ := bind_eq_ok_iff.mp h
  obtain ⟨colors, hcolors, h⟩ := bind_eq_ok_iff.mp h
  cases h
  simp only [List.mem_append] at hf
  rcases hf with ((hf | hf) | hf) | hf
  · split at hf
    · exact metadata_of_mem_missingLayers hf
    · cases hf
  · exact metadata_of_mem_violations hupward hf
  · unfold presetFindings at hpresets
    split at hpresets
    · cases hpresets
      cases hf
    · obtain ⟨_, _, _, _, rfl⟩ := exists_config_of_mem_styleFindings hpresets hf
      rfl
  · obtain ⟨_, _, _, _, rfl⟩ := exists_config_of_mem_styleFindings hcolors hf
    rfl

end Design

/-! ## The organization of the code -/

/-- Counting one more file keeps the conventions distinct. -/
theorem Inventory.nodup_names_countConvention {counts : Table Nat} (h : counts.names.Nodup)
    (name : String) : (countConvention name counts).names.Nodup := by
  unfold countConvention
  split
  · exact h
  · exact Table.nodup_names_put h _ _

theorem Inventory.nodup_names_conventions (entries : List WalkEntry) :
    (ofEntries entries).conventions.names.Nodup := by
  refine List.foldlRecOn (motive := fun i : Inventory => i.conventions.names.Nodup) entries add
    List.nodup_nil fun i hi e _ => ?_
  unfold add
  split
  · exact hi
  · split
    · exact nodup_names_countConvention hi _
    · exact hi

namespace Organization

variable {disk : Disk} {root : Path} {c : Config} {skip : NameSet}

theorem nodup_names_conventionCounts (files : List String) :
    (conventionCounts files).names.Nodup :=
  List.foldlRecOn (motive := fun counts : Table Nat => counts.names.Nodup) files _ List.nodup_nil
    fun _ h name _ => Inventory.nodup_names_countConvention h name

theorem legible_of_metadata {f : Finding} {t : Table Json} (h : f.metadata = some t)
    (ht : (Json.obj t).Faithful) : f.Legible := by
  intro u hu
  rw [h] at hu
  cases hu
  exact ht

theorem legible_mixedNaming (directory : String) {significant : Table Nat}
    (h : significant.names.Nodup) : (mixedNaming directory significant).Legible := by
  have hconventions := Json.faithful_obj_map h fun n => Json.faithful_ofNat n
  exact legible_of_metadata rfl (by simpa [Table.names] using hconventions)

theorem legible_of_mem_checkAll {i : Inventory} {texts : Contents} {f : Finding}
    (hf : f ∈ checkAll c i texts) : f.Legible := by
  simp only [checkAll, List.mem_append] at hf
  rcases hf with ((((hf | hf) | hf) | hf) | hf) | hf
  · obtain ⟨_, _, rfl⟩ := List.mem_map.mp hf
    exact legible_of_metadata rfl (by simp [Table.names])
  · obtain ⟨e, _, hf⟩ := List.mem_filterMap.mp hf
    obtain ⟨_, hf⟩ := Option.ite_none_left_eq_some.mp hf
    cases hf
    have hcounts := nodup_names_conventionCounts e.2
    exact legible_mixedNaming _ (hcounts.sublist (List.filter_sublist.map _))
  · obtain ⟨_, _, rfl⟩ := List.mem_map.mp hf
    exact legible_of_metadata rfl (by simp [Table.names])
  · obtain ⟨e, _, hf⟩ := List.mem_filterMap.mp hf
    obtain ⟨_, hf⟩ := Option.ite_none_right_eq_some.mp hf
    obtain ⟨_, hf⟩ := Option.ite_none_right_eq_some.mp hf
    cases hf
    exact legible_of_metadata rfl (by simp [Table.names])
  · obtain ⟨_, _, rfl⟩ := List.mem_map.mp hf
    exact legible_of_metadata rfl (by simp [Table.names])
  · obtain ⟨e, _, hf⟩ := List.mem_filterMap.mp hf
    obtain ⟨_, hf⟩ := Option.ite_none_left_eq_some.mp hf
    obtain ⟨_, hf⟩ := Option.ite_none_left_eq_some.mp hf
    cases hf
    exact legible_of_metadata rfl (by simp [Table.names])

/-- What an analysis gives is not lost in writing. -/
theorem legible_of_analyze {a : Analysis} (h : analyze disk root c skip = .ok a) :
    (∀ f ∈ a.findings, f.Legible) ∧ a.stats.conventions.names.Nodup := by
  obtain ⟨found, hfound, h⟩ := bind_eq_ok_iff.mp h
  obtain ⟨circular, hcircular, h⟩ := bind_eq_ok_iff.mp h
  cases h
  refine ⟨fun f hf => ?_, ?_⟩
  · rcases List.mem_append.mp hf with hf | hf
    · exact legible_of_mem_checkAll hf
    · obtain ⟨cycle, _, hfinding⟩ := (mem_of_mapM_eq_ok hcircular f).mp hf
      exact legible_of_metadata (Circular.metadata_of_finding hfinding) (by simp [Table.names])
  · rw [statsOf, Table.names_map]
    exact Inventory.nodup_names_conventions _

end Organization

/-! ## Surveys -/

namespace Survey

variable {disk : Disk} {c : Config}

theorem legible_nothing : SurveyResult.nothing.Legible where
  detections := by simp [SurveyResult.nothing]
  workspaces := by simp [SurveyResult.nothing]
  findings := by simp [SurveyResult.nothing]
  stats := by simp [SurveyResult.nothing]

theorem legible_of_ofDirectory {root : Path} {r : SurveyResult}
    (h : ofDirectory disk root c = .ok r) : r.Legible := by
  obtain ⟨skip, detector, design, organization, _, hdetector, hdetections, hworkspaces, hdesign,
    horganization, hfindings, _, hstats⟩ := ofDirectory_eq_ok h
  obtain ⟨hlegible, hconventions⟩ := Organization.legible_of_analyze horganization
  refine ⟨fun d hd => ?_, ?_, ?_, ?_⟩
  · obtain ⟨_, _, rule, hrule, hof⟩ := exists_rule_of_mem_detectAll hdetections hd
    rw [hof.confidence]
    exact Catalog.readsBack_confidence rule hrule
  · rw [hworkspaces]
    exact fun w hw => Detector.nodup_names_of_mem_result hdetector hw
  · rw [hfindings, getD_findingsSection]
    intro f hf
    rcases List.mem_append.mp hf with hf | hf
    · cases design with
      | none => cases hf
      | some a =>
        have hnone := Design.metadata_of_mem_findings (analyze_of_designOf hdesign) hf
        intro t ht
        rw [hnone] at ht
        cases ht
    · exact hlegible f hf
  · rw [hstats]
    rintro s ⟨⟩
    exact hconventions

/-- Nothing that a survey gives is lost in writing. -/
theorem legible_of_run {path : Path} {r : SurveyResult} (h : run disk path c = .ok r) :
    r.Legible := by
  rcases destination_of_run h with ⟨_, _, hr⟩ | ⟨_, _, _, rfl⟩
  · exact legible_of_ofDirectory hr
  · exact legible_nothing

end Survey

end RepoSurvey
