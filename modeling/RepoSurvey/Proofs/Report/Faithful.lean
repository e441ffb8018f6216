import RepoSurvey.Proofs.Json.RoundTrip
import RepoSurvey.Report.Result

/-!
# Nothing of a report is lost in writing

The names in each part are distinct. Where a part holds a table or a number of its own, that has to
be known of them.

* `Finding.Legible`: what has to be known of a finding;
* `SurveyResult.Legible`: and of a result;
* `SurveyResult.faithful`: such a result is not lost in writing.
-/

namespace RepoSurvey

/-- A table written under its own names. -/
theorem Table.names_map {α β : Type} (t : Table α) (f : α → β) :
    Table.names (t.map fun (name, a) => (name, f a)) = t.names := by
  simp [Table.names, Function.comp_def]

theorem Json.faithful_obj_map {α : Type} {t : Table α} (hnames : t.names.Nodup) {f : α → Json}
    (h : ∀ a, (f a).Faithful) : (Json.obj (t.map fun (name, a) => (name, f a))).Faithful := by
  refine .obj (by rwa [Table.names_map]) fun e he => ?_
  obtain ⟨d, _, rfl⟩ := List.mem_map.mp he
  exact h d.2

theorem LineRange.faithful (r : LineRange) : r.toJson.Faithful := by
  simp [toJson, Table.names]

theorem Detection.faithful {d : Detection} (h : d.confidence.ReadsBack) : d.toJson.Faithful := by
  simp [toJson, Table.names, LineRange.faithful, h]

theorem Workspace.faithful {w : Workspace} (h : w.dependencies.names.Nodup) :
    w.toJson.Faithful := by
  have hdependencies := Json.faithful_obj_map h .str
  simp [toJson, Table.names, hdependencies]

/-- What is noted with a finding is not lost in writing. -/
def Finding.Legible (f : Finding) : Prop := ∀ t ∈ f.metadata, (Json.obj t).Faithful

theorem Finding.faithful {f : Finding} (h : f.Legible) : f.toJson.Faithful := by
  cases hmetadata : f.metadata with
  | none => simp [toJson, Table.names, hmetadata]
  | some t => simp [toJson, Table.names, hmetadata, h t hmetadata]

theorem DesignLayers.faithful (d : DesignLayers) : d.toJson.Faithful := by
  simp [toJson, Table.names]

theorem OrganizationStats.faithful {s : OrganizationStats} (h : s.conventions.names.Nodup) :
    s.toJson.Faithful := by
  have hconventions := Json.faithful_obj_map h .int
  simp [toJson, Table.names, hconventions]

/-- What is not lost of a result in writing. -/
structure SurveyResult.Legible (r : SurveyResult) : Prop where
  detections : ∀ d ∈ r.detections, d.confidence.ReadsBack
  workspaces : ∀ w ∈ r.workspaces, w.dependencies.names.Nodup
  findings : ∀ f ∈ r.findings.getD [], f.Legible
  stats : ∀ s ∈ r.stats, s.conventions.names.Nodup

theorem SurveyResult.faithful {r : SurveyResult} (h : r.Legible) : r.toJson.Faithful := by
  have hdetections : ∀ d ∈ r.detections, d.toJson.Faithful := fun d hd =>
    d.faithful (h.detections d hd)
  have hworkspaces : ∀ w ∈ r.workspaces, w.toJson.Faithful := fun w hw =>
    w.faithful (h.workspaces w hw)
  have hfindings : ∀ f ∈ r.findings.getD [], f.toJson.Faithful := fun f hf =>
    f.faithful (h.findings f hf)
  have hstats : ∀ s ∈ r.stats, s.toJson.Faithful := fun s hs => s.faithful (h.stats s hs)
  cases hfs : r.findings <;> cases hlayers : r.layers <;> cases hs : r.stats <;>
    simp_all [toJson, Table.names, DesignLayers.faithful]

end RepoSurvey
