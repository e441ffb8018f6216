import RepoSurvey.Catalog.Detect
import RepoSurvey.Proofs.Traversal
import RepoSurvey.Proofs.Validation.Checked

/-!
# Searching a file never fails

Detections are held to the rules for detections that are given. Those that a search makes keep
them: lines are counted from one, rules have ids and confidences between zero and one.

* `Rule.Reportable`: what a rule gives is accepted;
* `Catalog.reportable_rules`: so it is for every rule of the catalog;
* `Catalog.exists_detect_ok`: a file with a name is searched without failure;
* `Detection.Of`, `Catalog.exists_rule_of_mem_detect`: what is found is in that file, and of one of
  the rules.
-/

namespace RepoSurvey

/-- The detections of the rule are accepted: it has an id and a confidence between zero and
one. -/
structure Rule.Reportable (r : Rule) : Prop where
  id : r.id.isEmpty = false
  confidence : r.confidence.toBinary64.inUnitInterval = true

theorem LineRange.exists_around_ok {line : Int} (count : Int) {radius : Int} (hline : 1 ≤ line)
    (hradius : 0 ≤ radius) : ∃ range, (around line count radius).toExcept = .ok range := by
  have hstart : 1 ≤ max 1 (line - radius) := by omega
  have hordered : max 1 (line - radius) ≤ min (max count line) (line + radius) := by omega
  rw [around, make?_valid hstart hordered]
  exact ⟨_, rfl⟩

theorem Checked.nonEmptyText_valid {s : String} (h : s.isEmpty = false) :
    nonEmptyText (.str s) = .valid s := by
  simp [nonEmptyText, text, andThen, h]

theorem Checked.unitReal_valid {x : Binary64} (h : x.inUnitInterval = true) :
    unitReal (.float x) = .valid x := by
  obtain ⟨hzero, hone⟩ := Bool.and_eq_true_iff.mp h
  simp [unitReal, real, andThen, hzero, hone]

theorem Detection.exists_make?_ok {r : Rule} (hr : r.Reportable) {file : String}
    (hfile : file.isEmpty = false) (range : LineRange) :
    ∃ d, (make? file range r.id r.confidence r.domain).toExcept = .ok d := by
  rw [make?, Checked.nonEmptyText_valid hfile, Checked.nonEmptyText_valid hr.id,
    Checked.unitReal_valid hr.confidence]
  exact ⟨_, rfl⟩

/-- A detection is in a file and says of a rule what it should. -/
structure Detection.Of (file : String) (r : Rule) (d : Detection) : Prop where
  file : d.file = file
  rule : d.rule = r.id
  confidence : d.confidence = r.confidence.toBinary64
  domain : d.domain = r.domain

theorem Detection.of_make? {r : Rule} {file : String} {range : LineRange} {d : Detection}
    (h : (make? file range r.id r.confidence r.domain).toExcept = .ok d) : d.Of file r := by
  have hvalid := Checked.toExcept_eq_ok_iff.mp h
  obtain ⟨_, domain, hfour, hdomain, rfl⟩ := Checked.seq_eq_valid_iff.mp hvalid
  obtain ⟨_, confidence, hthree, hconfidence, rfl⟩ := Checked.seq_eq_valid_iff.mp hfour
  obtain ⟨_, rule, htwo, hrule, rfl⟩ := Checked.seq_eq_valid_iff.mp hthree
  obtain ⟨_, lines, hone, _, rfl⟩ := Checked.seq_eq_valid_iff.mp htwo
  obtain ⟨name, hname, rfl⟩ := Checked.map_eq_valid_iff.mp hone
  cases hdomain
  exact ⟨Checked.eq_of_nonEmptyText (Checked.under_eq_valid_iff.mp hname),
    Checked.eq_of_nonEmptyText (Checked.under_eq_valid_iff.mp hrule),
    Checked.eq_of_unitReal (Checked.under_eq_valid_iff.mp hconfidence), rfl⟩

namespace Catalog

theorem reportable_rules : ∀ r ∈ rules, r.Reportable := by
  have hall : (rules.all fun r =>
      !r.id.isEmpty && r.confidence.toBinary64.inUnitInterval) = true := by decide +kernel
  intro r hr
  obtain ⟨hid, hconfidence⟩ := Bool.and_eq_true_iff.mp (List.all_eq_true.mp hall r hr)
  exact ⟨by simpa using hid, hconfidence⟩

variable {file : String} {radius : Int}

theorem exists_detectPattern_ok {r : Rule} (hr : r.Reportable) (hfile : file.isEmpty = false)
    (hradius : 0 ≤ radius) (lines : List (List Char)) (p : Pattern) :
    ∃ ds, detectPattern file lines radius r p = .ok ds := by
  unfold detectPattern
  cases hline : firstLine? p lines with
  | none => exact ⟨[], rfl⟩
  | some line =>
    obtain ⟨i, _, rfl⟩ := Option.map_eq_some_iff.mp hline
    have hone : (1 : Int) ≤ (i + 1 : Nat) := by omega
    obtain ⟨range, hrange⟩ := LineRange.exists_around_ok lines.length hone hradius
    obtain ⟨d, hd⟩ := Detection.exists_make?_ok hr hfile range
    exact ⟨[d], bind_eq_ok_iff.mpr ⟨range, hrange, bind_eq_ok_iff.mpr ⟨d, hd, rfl⟩⟩⟩

theorem exists_detectRule_ok {r : Rule} (hr : r.Reportable) (hfile : file.isEmpty = false)
    (hradius : 0 ≤ radius) (lines : List (List Char)) :
    ∃ ds, detectRule file lines radius r = .ok ds :=
  exists_bind_pure_ok_iff.mpr
    (exists_mapM_ok_iff.mpr fun p _ => exists_detectPattern_ok hr hfile hradius lines p)

theorem exists_detect_ok {rs : List Rule} (hrs : ∀ r ∈ rs, r.Reportable)
    (hfile : file.isEmpty = false) (hradius : 0 ≤ radius) (text : List Char) (limit : Int) :
    ∃ ds, detect rs file text radius limit = .ok ds := by
  unfold detect
  split
  · exact ⟨[], rfl⟩
  · refine exists_bind_pure_ok_iff.mpr (exists_mapM_ok_iff.mpr fun r hr => ?_)
    exact exists_detectRule_ok (hrs r (List.mem_of_mem_filter hr)) hfile hradius _

theorem of_mem_detectPattern {r : Rule} {lines : List (List Char)} {p : Pattern}
    {ds : List Detection} (h : detectPattern file lines radius r p = .ok ds) {d : Detection}
    (hd : d ∈ ds) : d.Of file r := by
  unfold detectPattern at h
  split at h
  · cases h
    simp at hd
  · obtain ⟨range, _, h⟩ := bind_eq_ok_iff.mp h
    obtain ⟨found, hfound, h⟩ := bind_eq_ok_iff.mp h
    cases h
    rw [List.mem_singleton.mp hd]
    exact Detection.of_make? hfound

/-- All detections of a search are in the file that is searched, and of the rules that are searched
for. -/
theorem exists_rule_of_mem_detect {rs : List Rule} {text : List Char} {limit : Int}
    {ds : List Detection} (h : detect rs file text radius limit = .ok ds) {d : Detection}
    (hd : d ∈ ds) : ∃ r ∈ rs, d.Of file r := by
  unfold detect at h
  split at h
  · cases h
    simp at hd
  · obtain ⟨found, hfound, h⟩ := bind_eq_ok_iff.mp h
    cases h
    obtain ⟨r, hr, rs', hrule, hd⟩ := exists_of_mem_flatten hfound hd
    obtain ⟨found', hfound', hrule⟩ := bind_eq_ok_iff.mp hrule
    cases hrule
    obtain ⟨p, _, ps, hpattern, hd⟩ := exists_of_mem_flatten hfound' hd
    exact ⟨r, List.mem_of_mem_filter hr, of_mem_detectPattern hpattern hd⟩

end Catalog

end RepoSurvey
