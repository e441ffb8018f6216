import Mathlib.Algebra.Order.Field.Basic
import Mathlib.Algebra.Order.Field.Rat
import RepoSurvey.Proofs.Validation.ReadingBack
import RepoSurvey.Report.Result

/-!
# The written form of reports

A part of a report is written as an object with a name for each field, and read back as it was.

* `WrittenForm`: what holds of the way that a part is written and checked;
* `LineRange.writtenForm`, `Detection.writtenForm` and so on: it holds of every part;
* `Binary64.inUnitInterval_iff`: the numbers between zero and one by their value.
-/

namespace RepoSurvey

/-- Letters only, the first of them a small one. -/
def isCamelCase (name : String) : Bool :=
  name.toList.all Char.isAlpha && name.toList.head?.any Char.isLower

/-- A record that is written under the names of its fields, those left out that it has no value for,
is read back; and it does not matter under which of its names a field is given. -/
structure WrittenForm {α : Type} (fields : List FieldName) (absent : α → List FieldName)
    (check : Json → Checked α) (write : α → Json) : Prop where
  camelCase : ∀ f ∈ fields, isCamelCase f.written = true
  written : ∀ a, ∃ members, write a = .obj members
    ∧ Table.names members = (fields.filter (· ∉ absent a)).map FieldName.written
    ∧ ∀ e ∈ members, e.2 ≠ .null
  readsBack : Checked.ReadsBack check write
  eitherName : ∀ members members', (∀ f ∈ fields, f.value? members = f.value? members') →
    (check (.obj members)).accepted? = (check (.obj members')).accepted?

/-! ## Numbers between zero and one -/

namespace Binary64

/-- The value of a finite number. -/
def value? : Binary64 → Option Rat
  | .nan => none
  | .infinite _ => none
  | .finite negative mantissa exponent =>
    let magnitude : Rat := ((ratio mantissa exponent).1 : Rat) / (ratio mantissa exponent).2
    some (if negative then -magnitude else magnitude)

theorem ratio_pos (mantissa : Nat) (exponent : Int) : 0 < (ratio mantissa exponent).2 := by
  rw [ratio]
  split
  · exact Nat.one_pos
  · rw [Nat.one_shiftLeft]
    exact Nat.two_pow_pos _

theorem ratio_fst_eq_zero_iff {mantissa : Nat} {exponent : Int} :
    (ratio mantissa exponent).1 = 0 ↔ mantissa = 0 := by
  rw [ratio]
  split
  · rw [Nat.shiftLeft_eq, Nat.mul_eq_zero]
    have := Nat.two_pow_pos exponent.toNat
    omega
  · rfl

theorem inUnitInterval_iff {x : Binary64} :
    x.inUnitInterval = true ↔ ∃ q, x.value? = some q ∧ 0 ≤ q ∧ q ≤ 1 := by
  cases x with
  | nan => simp [inUnitInterval, atLeastZero, value?]
  | infinite negative => cases negative <;> simp [inUnitInterval, atLeastZero, atMostOne, value?]
  | finite negative mantissa exponent =>
    have hpos : (0 : Rat) < (ratio mantissa exponent).2 := by
      exact_mod_cast ratio_pos mantissa exponent
    have hnonneg : (0 : Rat) ≤ ((ratio mantissa exponent).1 : Rat) / (ratio mantissa exponent).2 :=
      div_nonneg (Nat.cast_nonneg _) hpos.le
    have hzero : ((ratio mantissa exponent).1 : Rat) / (ratio mantissa exponent).2 = 0
        ↔ mantissa = 0 := by
      rw [div_eq_zero_iff, or_iff_left hpos.ne', Nat.cast_eq_zero, ratio_fst_eq_zero_iff]
    have hone : ((ratio mantissa exponent).1 : Rat) / (ratio mantissa exponent).2 ≤ 1
        ↔ (ratio mantissa exponent).1 ≤ (ratio mantissa exponent).2 := by
      rw [div_le_one hpos, Nat.cast_le]
    cases negative with
    | false => simp [inUnitInterval, atLeastZero, atMostOne, value?, hnonneg, hone]
    | true =>
      -- below zero, so only minus zero is left
      have hleast : 0 ≤ -(((ratio mantissa exponent).1 : Rat) / (ratio mantissa exponent).2)
          ↔ mantissa = 0 := by
        rw [← hzero, neg_nonneg]
        exact ⟨fun h => le_antisymm h hnonneg, fun h => h.le⟩
      have hmost : -(((ratio mantissa exponent).1 : Rat) / (ratio mantissa exponent).2) ≤ 1 :=
        (neg_nonpos.mpr hnonneg).trans zero_le_one
      simp [inUnitInterval, atLeastZero, atMostOne, value?, hleast, hmost]

end Binary64

/-! ## Ranges of lines -/

namespace LineRange

def fields : List FieldName := [startName, stopName]

variable {members members' : Table Json} {r : LineRange}

theorem check_obj_eq_valid_iff : check (.obj members) = .valid r
    ↔ startName.required (Checked.integerFrom 1) members = .valid r.start
      ∧ stopName.required (Checked.integerFrom 1) members = .valid r.stop := by
  simp only [check, Checked.record, Checked.andThen_eq_valid_iff, Checked.seq_eq_valid_iff,
    Checked.map_eq_valid_iff]
  constructor
  · rintro ⟨_, ⟨_, _, ⟨_, hstart, rfl⟩, hstop, rfl⟩, hends⟩
    dsimp only [ofEnds] at hends
    split at hends
    · cases hends
      exact ⟨hstart, hstop⟩
    · cases hends
  · rintro ⟨hstart, hstop⟩
    refine ⟨(r.start, r.stop), ⟨_, _, ⟨_, hstart, rfl⟩, hstop, rfl⟩, ?_⟩
    exact dif_pos ⟨r.one_le, r.ordered⟩

theorem readsBack : Checked.ReadsBack check toJson := by
  intro j r h
  cases j with
  | obj members =>
    obtain ⟨hstart, hstop⟩ := check_obj_eq_valid_iff.mp h
    exact check_obj_eq_valid_iff.mpr
      ⟨FieldName.required_of_readsBack (Checked.readsBack_integerFrom 1) hstart rfl,
        FieldName.required_of_readsBack (Checked.readsBack_integerFrom 1) hstop rfl⟩
  | _ => cases h

theorem writtenForm : WrittenForm fields (fun _ => []) check toJson where
  camelCase := by decide
  written r := ⟨_, rfl, rfl, by simp⟩
  readsBack := readsBack
  eitherName members members' hsame := by
    simp only [fields, List.forall_mem_cons] at hsame
    simp [check, Checked.record, hsame]

end LineRange

/-! ## Detections -/

namespace Detection

def fields : List FieldName := [fileName, linesName, ruleName, confidenceName, domainName]

variable {members members' : Table Json} {d : Detection}

theorem check_obj_eq_valid_iff : check (.obj members) = .valid d
    ↔ fileName.required Checked.nonEmptyText members = .valid d.file
      ∧ linesName.required LineRange.check members = .valid d.lines
      ∧ ruleName.required Checked.nonEmptyText members = .valid d.rule
      ∧ confidenceName.required Checked.unitReal members = .valid d.confidence
      ∧ domainName.required Checked.text members = .valid d.domain := by
  simp only [check, Checked.record, Checked.seq_eq_valid_iff, Checked.map_eq_valid_iff]
  constructor
  · rintro ⟨_, _, ⟨_, _, ⟨_, _, ⟨_, _, ⟨_, hfile, rfl⟩, hlines, rfl⟩, hrule, rfl⟩, hconfidence,
      rfl⟩, hdomain, rfl⟩
    exact ⟨hfile, hlines, hrule, hconfidence, hdomain⟩
  · rintro ⟨hfile, hlines, hrule, hconfidence, hdomain⟩
    exact ⟨_, _, ⟨_, _, ⟨_, _, ⟨_, _, ⟨_, hfile, rfl⟩, hlines, rfl⟩, hrule, rfl⟩, hconfidence,
      rfl⟩, hdomain, rfl⟩

theorem readsBack : Checked.ReadsBack check toJson := by
  intro j d h
  cases j with
  | obj members =>
    obtain ⟨hfile, hlines, hrule, hconfidence, hdomain⟩ := check_obj_eq_valid_iff.mp h
    exact check_obj_eq_valid_iff.mpr
      ⟨FieldName.required_of_readsBack Checked.readsBack_nonEmptyText hfile rfl,
        FieldName.required_of_readsBack LineRange.readsBack hlines rfl,
        FieldName.required_of_readsBack Checked.readsBack_nonEmptyText hrule rfl,
        FieldName.required_of_readsBack Checked.readsBack_unitReal hconfidence rfl,
        FieldName.required_of_readsBack Checked.readsBack_text hdomain rfl⟩
  | _ => cases h

theorem writtenForm : WrittenForm fields (fun _ => []) check toJson where
  camelCase := by decide
  written d := ⟨_, rfl, rfl, by simp [LineRange.toJson]⟩
  readsBack := readsBack
  eitherName members members' hsame := by
    simp only [fields, List.forall_mem_cons] at hsame
    simp [check, Checked.record, hsame]

end Detection

/-! ## Workspaces -/

namespace Workspace

def fields : List FieldName := [rootName, packageManagerName, languageName, dependenciesName]

variable {members members' : Table Json} {w : Workspace}

theorem check_obj_eq_valid_iff : check (.obj members) = .valid w
    ↔ rootName.required Checked.text members = .valid w.root
      ∧ packageManagerName.required Checked.text members = .valid w.packageManager
      ∧ languageName.required Checked.text members = .valid w.language
      ∧ dependenciesName.orElse [] (Checked.tableOf Checked.text) members
        = .valid w.dependencies := by
  simp only [check, Checked.record, Checked.seq_eq_valid_iff, Checked.map_eq_valid_iff]
  constructor
  · rintro ⟨_, _, ⟨_, _, ⟨_, _, ⟨_, hroot, rfl⟩, hmanager, rfl⟩, hlanguage, rfl⟩, hdependencies,
      rfl⟩
    exact ⟨hroot, hmanager, hlanguage, hdependencies⟩
  · rintro ⟨hroot, hmanager, hlanguage, hdependencies⟩
    exact ⟨_, _, ⟨_, _, ⟨_, _, ⟨_, hroot, rfl⟩, hmanager, rfl⟩, hlanguage, rfl⟩, hdependencies,
      rfl⟩

theorem readsBack : Checked.ReadsBack check toJson := by
  intro j w h
  cases j with
  | obj members =>
    obtain ⟨hroot, hmanager, hlanguage, hdependencies⟩ := check_obj_eq_valid_iff.mp h
    exact check_obj_eq_valid_iff.mpr
      ⟨FieldName.required_of_readsBack Checked.readsBack_text hroot rfl,
        FieldName.required_of_readsBack Checked.readsBack_text hmanager rfl,
        FieldName.required_of_readsBack Checked.readsBack_text hlanguage rfl,
        FieldName.orElse_of_readsBack Checked.readsBack_text.tableOf rfl hdependencies rfl⟩
  | _ => cases h

theorem writtenForm : WrittenForm fields (fun _ => []) check toJson where
  camelCase := by decide
  written w := ⟨_, rfl, rfl, by simp⟩
  readsBack := readsBack
  eitherName members members' hsame := by
    simp only [fields, List.forall_mem_cons] at hsame
    simp [check, Checked.record, hsame]

end Workspace

/-! ## Findings -/

namespace Finding

def fields : List FieldName :=
  [kindName, domainName, descriptionName, pathsName, severityName, metadataName]

/-- The field that is not written where there are no details. -/
def absent (f : Finding) : List FieldName := if f.metadata.isNone then [metadataName] else []

variable {members members' : Table Json} {f : Finding}

theorem check_obj_eq_valid_iff : check (.obj members) = .valid f
    ↔ kindName.required (Checked.oneOf (FindingKind.all.map FindingKind.text) FindingKind.ofText?)
        members = .valid f.kind
      ∧ domainName.required Checked.text members = .valid f.domain
      ∧ descriptionName.required Checked.text members = .valid f.description
      ∧ pathsName.orElse [] (Checked.listOf Checked.text) members = .valid f.paths
      ∧ severityName.required (Checked.oneOf (Severity.all.map Severity.text) Severity.ofText?)
        members = .valid f.severity
      ∧ metadataName.orElse none (Checked.orNull Checked.anyTable) members = .valid f.metadata := by
  simp only [check, Checked.record, Checked.seq_eq_valid_iff, Checked.map_eq_valid_iff]
  constructor
  · rintro ⟨_, _, ⟨_, _, ⟨_, _, ⟨_, _, ⟨_, _, ⟨_, hkind, rfl⟩, hdomain, rfl⟩, hdescription, rfl⟩,
      hpaths, rfl⟩, hseverity, rfl⟩, hmetadata, rfl⟩
    exact ⟨hkind, hdomain, hdescription, hpaths, hseverity, hmetadata⟩
  · rintro ⟨hkind, hdomain, hdescription, hpaths, hseverity, hmetadata⟩
    exact ⟨_, _, ⟨_, _, ⟨_, _, ⟨_, _, ⟨_, _, ⟨_, hkind, rfl⟩, hdomain, rfl⟩, hdescription, rfl⟩,
      hpaths, rfl⟩, hseverity, rfl⟩, hmetadata, rfl⟩

theorem value?_metadata (f : Finding) :
    metadataName.value? f.toJson.members = f.metadata.map .obj := by
  rw [toJson]
  cases f.metadata <;> rfl

theorem readsBack : Checked.ReadsBack check toJson := by
  intro j f h
  cases j with
  | obj members =>
    obtain ⟨hkind, hdomain, hdescription, hpaths, hseverity, hmetadata⟩ :=
      check_obj_eq_valid_iff.mp h
    exact check_obj_eq_valid_iff.mpr
      ⟨FieldName.required_of_readsBack (Checked.readsBack_oneOf FindingKind.ofText?_text) hkind rfl,
        FieldName.required_of_readsBack Checked.readsBack_text hdomain rfl,
        FieldName.required_of_readsBack Checked.readsBack_text hdescription rfl,
        FieldName.orElse_of_readsBack Checked.readsBack_text.listOf rfl hpaths rfl,
        FieldName.required_of_readsBack (Checked.readsBack_oneOf Severity.ofText?_text) hseverity
          rfl,
        FieldName.orNull_of_readsBack Checked.readsBack_anyTable (fun _ => by simp) hmetadata
          (value?_metadata f)⟩
  | _ => cases h

theorem writtenForm : WrittenForm fields absent check toJson where
  camelCase := by decide
  written f := by
    refine ⟨_, rfl, ?_, ?_⟩
    · cases hmetadata : f.metadata <;> simp [absent, hmetadata, Table.names] <;> decide
    · cases f.metadata <;> simp [Json.strings]
  readsBack := readsBack
  eitherName members members' hsame := by
    simp only [fields, List.forall_mem_cons] at hsame
    simp [check, Checked.record, hsame]

end Finding

/-! ## The design system and the organization -/

namespace DesignLayers

def fields : List FieldName :=
  [hasTokensName, hasConfigName, hasUiName, hasDocsName, tokenPathsName, configPathsName,
    uiPathsName]

variable {members members' : Table Json} {d : DesignLayers}

theorem check_obj_eq_valid_iff : check (.obj members) = .valid d
    ↔ hasTokensName.orElse false Checked.boolean members = .valid d.hasTokens
      ∧ hasConfigName.orElse false Checked.boolean members = .valid d.hasConfig
      ∧ hasUiName.orElse false Checked.boolean members = .valid d.hasUi
      ∧ hasDocsName.orElse false Checked.boolean members = .valid d.hasDocs
      ∧ tokenPathsName.orElse [] (Checked.listOf Checked.text) members = .valid d.tokenPaths
      ∧ configPathsName.orElse [] (Checked.listOf Checked.text) members = .valid d.configPaths
      ∧ uiPathsName.orElse [] (Checked.listOf Checked.text) members = .valid d.uiPaths := by
  simp only [check, Checked.record, Checked.seq_eq_valid_iff, Checked.map_eq_valid_iff]
  constructor
  · rintro ⟨_, _, ⟨_, _, ⟨_, _, ⟨_, _, ⟨_, _, ⟨_, _, ⟨_, htokens, rfl⟩, hconfig, rfl⟩, hui, rfl⟩,
      hdocs, rfl⟩, htokenPaths, rfl⟩, hconfigPaths, rfl⟩, huiPaths, rfl⟩
    exact ⟨htokens, hconfig, hui, hdocs, htokenPaths, hconfigPaths, huiPaths⟩
  · rintro ⟨htokens, hconfig, hui, hdocs, htokenPaths, hconfigPaths, huiPaths⟩
    exact ⟨_, _, ⟨_, _, ⟨_, _, ⟨_, _, ⟨_, _, ⟨_, _, ⟨_, htokens, rfl⟩, hconfig, rfl⟩, hui, rfl⟩,
      hdocs, rfl⟩, htokenPaths, rfl⟩, hconfigPaths, rfl⟩, huiPaths, rfl⟩

theorem readsBack : Checked.ReadsBack check toJson := by
  intro j d h
  cases j with
  | obj members =>
    obtain ⟨htokens, hconfig, hui, hdocs, htokenPaths, hconfigPaths, huiPaths⟩ :=
      check_obj_eq_valid_iff.mp h
    exact check_obj_eq_valid_iff.mpr
      ⟨FieldName.orElse_of_readsBack Checked.readsBack_boolean rfl htokens rfl,
        FieldName.orElse_of_readsBack Checked.readsBack_boolean rfl hconfig rfl,
        FieldName.orElse_of_readsBack Checked.readsBack_boolean rfl hui rfl,
        FieldName.orElse_of_readsBack Checked.readsBack_boolean rfl hdocs rfl,
        FieldName.orElse_of_readsBack Checked.readsBack_text.listOf rfl htokenPaths rfl,
        FieldName.orElse_of_readsBack Checked.readsBack_text.listOf rfl hconfigPaths rfl,
        FieldName.orElse_of_readsBack Checked.readsBack_text.listOf rfl huiPaths rfl⟩
  | _ => cases h

theorem writtenForm : WrittenForm fields (fun _ => []) check toJson where
  camelCase := by decide
  written d := ⟨_, rfl, rfl, by simp [Json.strings]⟩
  readsBack := readsBack
  eitherName members members' hsame := by
    simp only [fields, List.forall_mem_cons] at hsame
    simp [check, Checked.record, hsame]

end DesignLayers

namespace OrganizationStats

def fields : List FieldName :=
  [sourceFilesName, directoryDepthName, conventionsName, circularDependenciesName]

variable {members members' : Table Json} {s : OrganizationStats}

theorem check_obj_eq_valid_iff : check (.obj members) = .valid s
    ↔ sourceFilesName.orElse 0 Checked.integer members = .valid s.sourceFiles
      ∧ directoryDepthName.orElse 0 Checked.integer members = .valid s.directoryDepth
      ∧ conventionsName.orElse [] (Checked.tableOf Checked.integer) members = .valid s.conventions
      ∧ circularDependenciesName.orElse 0 Checked.integer members
        = .valid s.circularDependencies := by
  simp only [check, Checked.record, Checked.seq_eq_valid_iff, Checked.map_eq_valid_iff]
  constructor
  · rintro ⟨_, _, ⟨_, _, ⟨_, _, ⟨_, hfiles, rfl⟩, hdepth, rfl⟩, hconventions, rfl⟩, hcircular, rfl⟩
    exact ⟨hfiles, hdepth, hconventions, hcircular⟩
  · rintro ⟨hfiles, hdepth, hconventions, hcircular⟩
    exact ⟨_, _, ⟨_, _, ⟨_, _, ⟨_, hfiles, rfl⟩, hdepth, rfl⟩, hconventions, rfl⟩, hcircular, rfl⟩

theorem readsBack : Checked.ReadsBack check toJson := by
  intro j s h
  cases j with
  | obj members =>
    obtain ⟨hfiles, hdepth, hconventions, hcircular⟩ := check_obj_eq_valid_iff.mp h
    exact check_obj_eq_valid_iff.mpr
      ⟨FieldName.orElse_of_readsBack Checked.readsBack_integer rfl hfiles rfl,
        FieldName.orElse_of_readsBack Checked.readsBack_integer rfl hdepth rfl,
        FieldName.orElse_of_readsBack Checked.readsBack_integer.tableOf rfl hconventions rfl,
        FieldName.orElse_of_readsBack Checked.readsBack_integer rfl hcircular rfl⟩
  | _ => cases h

theorem writtenForm : WrittenForm fields (fun _ => []) check toJson where
  camelCase := by decide
  written s := ⟨_, rfl, rfl, by simp⟩
  readsBack := readsBack
  eitherName members members' hsame := by
    simp only [fields, List.forall_mem_cons] at hsame
    simp [check, Checked.record, hsame]

end OrganizationStats

/-! ## The whole report -/

namespace SurveyResult

def fields : List FieldName :=
  [detectionsName, workspacesName, findingsName, layersName, statsName]

/-- The sections that are not written. -/
def absent (r : SurveyResult) : List FieldName :=
  (if r.findings.isNone then [findingsName] else [])
    ++ (if r.layers.isNone then [layersName] else [])
    ++ if r.stats.isNone then [statsName] else []

variable {members : Table Json} {r : SurveyResult}

theorem check_obj_eq_valid_iff : check (.obj members) = .valid r
    ↔ detectionsName.orElse [] (Checked.listOf Detection.check) members = .valid r.detections
      ∧ workspacesName.orElse [] (Checked.listOf Workspace.check) members = .valid r.workspaces
      ∧ findingsName.orElse none (Checked.orNull (Checked.listOf Finding.check)) members
        = .valid r.findings
      ∧ layersName.orElse none (Checked.orNull DesignLayers.check) members = .valid r.layers
      ∧ statsName.orElse none (Checked.orNull OrganizationStats.check) members
        = .valid r.stats := by
  simp only [check, Checked.record, Checked.seq_eq_valid_iff, Checked.map_eq_valid_iff]
  constructor
  · rintro ⟨_, _, ⟨_, _, ⟨_, _, ⟨_, _, ⟨_, hdetections, rfl⟩, hworkspaces, rfl⟩, hfindings, rfl⟩,
      hlayers, rfl⟩, hstats, rfl⟩
    exact ⟨hdetections, hworkspaces, hfindings, hlayers, hstats⟩
  · rintro ⟨hdetections, hworkspaces, hfindings, hlayers, hstats⟩
    exact ⟨_, _, ⟨_, _, ⟨_, _, ⟨_, _, ⟨_, hdetections, rfl⟩, hworkspaces, rfl⟩, hfindings, rfl⟩,
      hlayers, rfl⟩, hstats, rfl⟩

/-- A section is found where there is one. -/
theorem value?_section (r : SurveyResult) :
    findingsName.value? r.toJson.members
        = r.findings.map (fun fs => Json.arr (fs.map Finding.toJson))
      ∧ layersName.value? r.toJson.members = r.layers.map DesignLayers.toJson
      ∧ statsName.value? r.toJson.members = r.stats.map OrganizationStats.toJson := by
  rw [toJson]
  cases r.findings <;> cases r.layers <;> cases r.stats <;> exact ⟨rfl, rfl, rfl⟩

theorem readsBack : Checked.ReadsBack check toJson := by
  intro j r h
  cases j with
  | obj members =>
    obtain ⟨hdetections, hworkspaces, hfindings, hlayers, hstats⟩ := check_obj_eq_valid_iff.mp h
    obtain ⟨hfindings', hlayers', hstats'⟩ := value?_section r
    exact check_obj_eq_valid_iff.mpr
      ⟨FieldName.orElse_of_readsBack Detection.readsBack.listOf rfl hdetections rfl,
        FieldName.orElse_of_readsBack Workspace.readsBack.listOf rfl hworkspaces rfl,
        FieldName.orNull_of_readsBack Finding.readsBack.listOf (fun _ => by simp) hfindings
          hfindings',
        FieldName.orNull_of_readsBack DesignLayers.readsBack
          (fun _ => by simp [DesignLayers.toJson]) hlayers hlayers',
        FieldName.orNull_of_readsBack OrganizationStats.readsBack
          (fun _ => by simp [OrganizationStats.toJson]) hstats hstats'⟩
  | _ => cases h

theorem writtenForm : WrittenForm fields absent check toJson where
  camelCase := by decide
  written r := by
    refine ⟨_, rfl, ?_, ?_⟩
    · cases hfindings : r.findings <;> cases hlayers : r.layers <;> cases hstats : r.stats <;>
        simp [absent, hfindings, hlayers, hstats, Table.names] <;> decide
    · cases r.findings <;> cases r.layers <;> cases r.stats <;>
        simp [DesignLayers.toJson, OrganizationStats.toJson]
  readsBack := readsBack
  eitherName members members' hsame := by
    simp only [fields, List.forall_mem_cons] at hsame
    simp [check, Checked.record, hsame]

end SurveyResult

/-- The parts of a report are read back from their written form, fields may be given under either of
their names, and what is accepted is in order. -/
theorem writtenForm_parts :
    WrittenForm LineRange.fields (fun _ => []) LineRange.check LineRange.toJson
    ∧ WrittenForm Detection.fields (fun _ => []) Detection.check Detection.toJson
    ∧ WrittenForm Workspace.fields (fun _ => []) Workspace.check Workspace.toJson
    ∧ WrittenForm Finding.fields Finding.absent Finding.check Finding.toJson
    ∧ WrittenForm DesignLayers.fields (fun _ => []) DesignLayers.check DesignLayers.toJson
    ∧ WrittenForm OrganizationStats.fields (fun _ => []) OrganizationStats.check
      OrganizationStats.toJson
    ∧ (∀ j r, LineRange.check j = .valid r → 1 ≤ r.start ∧ r.start ≤ r.stop)
    ∧ (∀ j d, Detection.check j = .valid d → d.file ≠ "" ∧ d.rule ≠ ""
      ∧ 1 ≤ d.lines.start ∧ d.lines.start ≤ d.lines.stop
      ∧ ∃ q, d.confidence.value? = some q ∧ 0 ≤ q ∧ q ≤ 1)
    ∧ ∀ j f, Finding.check j = .valid f →
      f.kind.text ∈ ["missing-layer", "dependency-violation", "missing-shared-preset",
        "hardcoded-config-values", "god-directory", "mixed-naming-convention", "deep-nesting",
        "barrel-bloat", "catch-all-directory", "circular-dependency"]
      ∧ f.severity.text ∈ ["critical", "warning", "info"] := by
  refine ⟨LineRange.writtenForm, Detection.writtenForm, Workspace.writtenForm, Finding.writtenForm,
    DesignLayers.writtenForm, OrganizationStats.writtenForm, fun _ r _ => ⟨r.one_le, r.ordered⟩,
    ?_, ?_⟩
  · intro j d h
    cases j with
    | obj members =>
      obtain ⟨hfile, _, hrule, hconfidence, _⟩ := Detection.check_obj_eq_valid_iff.mp h
      obtain ⟨_, _, hfile⟩ := FieldName.required_eq_valid_iff.mp hfile
      obtain ⟨_, _, hrule⟩ := FieldName.required_eq_valid_iff.mp hrule
      obtain ⟨_, _, hconfidence⟩ := FieldName.required_eq_valid_iff.mp hconfidence
      exact ⟨Checked.ne_empty_of_nonEmptyText hfile, Checked.ne_empty_of_nonEmptyText hrule,
        d.lines.one_le, d.lines.ordered,
        Binary64.inUnitInterval_iff.mp (Checked.inUnitInterval_of_unitReal hconfidence)⟩
    | _ => cases h
  · intro j f _
    constructor
    · cases f.kind <;> decide
    · cases f.severity <;> decide

end RepoSurvey
