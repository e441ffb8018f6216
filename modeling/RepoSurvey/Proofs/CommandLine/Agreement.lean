import RepoSurvey.CommandLine
import RepoSurvey.Proofs.Config.Values
import RepoSurvey.Proofs.Survey.Places

/-!
# The commands agree

Three commands look at the organization of a repository, each in its own way. What they print goes
together.

* `Command.Agree`: how the printed values go together;
* `Survey.agree_of_ofDirectory`: the results that they print;
* `Command.run_agree`: the commands, wherever all of them succeed.
-/

namespace RepoSurvey

/-! ## Results -/

namespace Survey

variable {disk : Disk} {place : List String} {c c' : Config} {skip : NameSet}

/-- A survey and the two analyses on their own find the same, if their configs differ in nothing
that the analyses read. -/
theorem agree_of_ofDirectory (hdisk : disk.WellFormed)
    (hconfig : c' = { c with contextRadius := c'.contextRadius, showProgress := c'.showProgress })
    {r : SurveyResult} (hr : ofDirectory disk ⟨true, place⟩ c' = .ok r)
    (hskip : Skip.load disk ⟨true, place⟩ c.skipDirs = .ok skip) {a : Organization.Analysis}
    (ha : Organization.analyze disk ⟨true, place⟩ c skip = .ok a) {found : List (List String)}
    (hfound : Organization.cycles disk ⟨true, place⟩ (Inventory.collect disk ⟨true, place⟩ skip)
      (c.fileSize : Nat) = .ok found) :
    (r.findings.getD []).filter (fun f => f.domain == Organization.domain) = a.findings
      ∧ r.stats = some a.stats ∧ Circular.findings found = .ok a.circular
      ∧ a.stats.circularDependencies = found.length := by
  obtain ⟨skip', organization, hskip', horganization, hfindings, hstats⟩ :=
    organization_of_ofDirectory hdisk hr
  rw [hconfig] at hskip' horganization
  have hsame : skip' = skip := Except.ok.inj (hskip'.symm.trans hskip)
  rw [hsame] at horganization
  have hanalysis : organization = a := Except.ok.inj (horganization.symm.trans ha)
  rw [hanalysis] at hfindings hstats
  obtain ⟨g, hg, hcircular, hcount⟩ := Organization.analyze_eq_ok ha
  -- the analysis passes over the directories of the config once more, which changes nothing
  rw [Organization.scripts, Organization.collect_eq hdisk fun _ => Skip.mem_of_load hskip]
    at hg
  obtain ⟨g', hg', hcycles⟩ := bind_eq_ok_iff.mp hfound
  rw [Inventory.collect, hg] at hg'
  cases hg'
  cases hcycles
  exact ⟨hfindings, hstats, hcircular, hcount⟩

end Survey

/-! ## What is printed -/

namespace Command

/-- The items of the list under a name; none, if there is no such list. -/
def itemsAt (j : Json) (name : String) : List Json :=
  match j.get? name with
  | some (.arr items) => items
  | _ => []

/-- Is this the text under a name? -/
def holds (name text : String) (j : Json) : Bool := (j.get? name).bind Json.str? == some text

/-- A finding on circular imports in the way cycles are listed. -/
def cycleOf (finding : Json) : Json :=
  .obj [("length", .ofNat (itemsAt finding "paths").length),
    ("severity", (finding.get? "severity").getD .null), ("cycle", .arr (itemsAt finding "paths"))]

/-- The findings on the organization are those of the survey that are on it, with the same figures.
The cycles are those that these findings are on, and as many as the figures say. -/
structure Agree (scan organization cycles : Json) : Prop where
  findings : organization.get? "findings" = some (.arr ((itemsAt scan "structuralFindings").filter
    (holds "domain" "code-organization")))
  stats : ∃ stats count, organization.get? "stats" = some stats
    ∧ scan.get? "codeOrganizationStats" = some stats
    ∧ stats.get? "circularDependencyCount" = some count ∧ cycles.get? "cycleCount" = some count
  cycles : cycles.get? "cycles" = some (.arr (((itemsAt organization "findings").filter
    (holds "type" "circular-dependency")).map cycleOf))
  lengths : ∀ f ∈ (itemsAt organization "findings").filter (holds "type" "circular-dependency"),
    (f.get? "metadata").bind (·.get? "cycleLength") = some (.ofNat (itemsAt f "paths").length)

theorem holds_domain (text : String) (f : Finding) :
    holds "domain" text f.toJson = (f.domain == text) := by
  simp [holds, Finding.toJson, Json.get?, Json.members, Table.get?, Json.str?]

theorem holds_kind (f : Finding) :
    holds "type" "circular-dependency" f.toJson = decide (f.kind = .circularDependency) := by
  have htext : (f.kind.text == "circular-dependency") = decide (f.kind = .circularDependency) := by
    cases f.kind <;> decide
  rw [← htext]
  simp [holds, Finding.toJson, Json.get?, Json.members, Table.get?, Json.str?]

theorem itemsAt_paths (f : Finding) : itemsAt f.toJson "paths" = f.paths.map .str := by
  simp [itemsAt, Finding.toJson, Json.get?, Json.members, Table.get?, Json.strings]

theorem get?_severity (f : Finding) :
    f.toJson.get? "severity" = some (.str f.severity.text) := by
  simp [Finding.toJson, Json.get?, Json.members, Table.get?]

theorem get?_metadata (f : Finding) : f.toJson.get? "metadata" = f.metadata.map .obj := by
  cases hmetadata : f.metadata <;>
    simp [Finding.toJson, Json.get?, Json.members, Table.get?, hmetadata]

theorem itemsAt_structuralFindings (r : SurveyResult) :
    itemsAt r.toJson "structuralFindings" = (r.findings.getD []).map Finding.toJson := by
  cases hfindings : r.findings <;> cases hlayers : r.layers <;> cases hstats : r.stats <;>
    simp [itemsAt, SurveyResult.toJson, Json.get?, Json.members, Table.get?, hfindings, hlayers,
      hstats]

theorem get?_codeOrganizationStats (r : SurveyResult) :
    r.toJson.get? "codeOrganizationStats" = r.stats.map OrganizationStats.toJson := by
  cases hfindings : r.findings <;> cases hlayers : r.layers <;> cases hstats : r.stats <;>
    simp [SurveyResult.toJson, Json.get?, Json.members, Table.get?, hfindings, hlayers, hstats]

theorem itemsAt_findings (a : Organization.Analysis) :
    itemsAt (organizationJson a) "findings" = a.findings.map Finding.toJson := by
  simp [itemsAt, organizationJson, Json.get?, Json.members, Table.get?]

theorem filter_itemsAt_findings (a : Organization.Analysis) :
    (itemsAt (organizationJson a) "findings").filter (holds "type" "circular-dependency")
      = a.circular.map Finding.toJson := by
  rw [itemsAt_findings, List.filter_map, Organization.Analysis.circular]
  exact congrArg (List.map Finding.toJson) (List.filter_congr fun f _ => holds_kind f)

theorem cycleOf_toJson {cycle : List String} {f : Finding} (h : Circular.finding cycle = .ok f) :
    cycleOf f.toJson = cycleJson cycle := by
  obtain ⟨_, hpaths, hseverity⟩ := Circular.of_finding h
  rw [cycleOf, itemsAt_paths, get?_severity, hseverity, hpaths, List.length_map, cycleJson,
    Json.strings]
  rfl

theorem agree_of_results {r : SurveyResult} {a : Organization.Analysis}
    {found : List (List String)}
    (hfindings : (r.findings.getD []).filter (fun f => f.domain == Organization.domain)
      = a.findings)
    (hstats : r.stats = some a.stats) (hcircular : Circular.findings found = .ok a.circular)
    (hcount : a.stats.circularDependencies = found.length) :
    Agree r.toJson (organizationJson a) (cyclesJson found) where
  findings := by
    have hfilter : ((r.findings.getD []).map Finding.toJson).filter
        (holds "domain" "code-organization") = a.findings.map Finding.toJson := by
      rw [List.filter_map, ← hfindings]
      exact congrArg (List.map Finding.toJson) (List.filter_congr fun f _ => holds_domain _ f)
    rw [itemsAt_structuralFindings, hfilter]
    rfl
  stats := by
    refine ⟨a.stats.toJson, .ofNat found.length, rfl, ?_, ?_, rfl⟩
    · rw [get?_codeOrganizationStats, hstats]
      rfl
    · rw [Json.ofNat, ← hcount]
      rfl
  cycles := by
    have hlisted : a.circular.map (fun f => cycleOf f.toJson) = found.map cycleJson :=
      map_eq_of_mapM_eq_ok hcircular fun _ _ _ hf => cycleOf_toJson hf
    rw [filter_itemsAt_findings, List.map_map]
    exact congrArg (fun items => some (Json.arr items)) hlisted.symm
  lengths := by
    intro j hj
    rw [filter_itemsAt_findings] at hj
    obtain ⟨f, hf, rfl⟩ := List.mem_map.mp hj
    obtain ⟨cycle, _, hfinding⟩ := (mem_of_mapM_eq_ok hcircular f).mp hf
    rw [get?_metadata, Circular.metadata_of_finding hfinding, itemsAt_paths, List.length_map]
    rfl

/-! ## The commands -/

theorem withConfig_eq_ok {environment : Table String} {explicit : Table Json}
    {k : Config → Except SurveyError Output} {out : Output}
    (h : withConfig environment explicit k = .ok out) (hexit : out.exit = 0) :
    ∃ c, Config.ofEnvironment environment explicit = .ok c ∧ k c = .ok out := by
  unfold withConfig at h
  split at h
  · rename_i c hc
    exact ⟨c, hc, h⟩
  · cases h
    cases hexit

theorem withReadable_eq_ok {disk : Disk} {path : Path} {k : Except SurveyError Output}
    {out : Output} (h : withReadable disk path k = .ok out) (hexit : out.exit = 0) :
    k = .ok out := by
  unfold withReadable at h
  split at h
  · cases h
    cases hexit
  · exact h

theorem withDirectory_eq_ok {disk : Disk} {path : String} {k : Path → Except SurveyError Output}
    {out : Output} (h : withDirectory disk path k = .ok out) (hexit : out.exit = 0) :
    ∃ place, disk.destination (Path.ofText path) = .ok (.directory place)
      ∧ k ⟨true, place⟩ = .ok out := by
  unfold withDirectory at h
  split at h
  · rename_i place hplace
    split at h
    · exact ⟨place, hplace, h⟩
    · cases h
      cases hexit
  · cases h
    cases hexit
  · cases h
    cases hexit
  · cases h

theorem mem_flagFields_of_scanValues {exactLines noProgress : Bool} {name : String}
    (h : name ∈ (scanValues exactLines noProgress).names) : name ∈ Config.flagFields := by
  cases exactLines <;> cases noProgress <;>
    simp_all [scanValues, Table.names, Config.flagFields]

/-- Where the three commands succeed on a path, what they print agrees, whatever the environment
and the flags. -/
theorem run_agree {disk : Disk} (hdisk : disk.WellFormed) {environment : Table String}
    {path : String} {exactLines noProgress : Bool} {scan organization cycles : Output}
    (hscan : run disk environment (.scan path exactLines noProgress) = .ok scan)
    (horganization : run disk environment (.organization path) = .ok organization)
    (hcycles : run disk environment (.cycles path) = .ok cycles)
    (hexit : scan.exit = 0 ∧ organization.exit = 0 ∧ cycles.exit = 0) :
    ∃ s o c, scan = .ofJson false s ∧ organization = .ofJson false o ∧ cycles = .ofJson true c
      ∧ Agree s o c := by
  unfold run at hscan horganization hcycles
  obtain ⟨c', hc', hscan⟩ := withConfig_eq_ok (withReadable_eq_ok hscan hexit.1) hexit.1
  obtain ⟨place, hplace, horganization⟩ := withDirectory_eq_ok horganization hexit.2.1
  obtain ⟨c, hc, horganization⟩ := withConfig_eq_ok horganization hexit.2.1
  obtain ⟨place', hplace', hcycles⟩ := withDirectory_eq_ok hcycles hexit.2.2
  obtain ⟨other, hother, hcycles⟩ := withConfig_eq_ok hcycles hexit.2.2
  -- the second and third command start from the same directory and the same config
  have hsame : place' = place := by
    cases hplace'.symm.trans hplace
    rfl
  have hconfig : other = c := Except.ok.inj (hother.symm.trans hc)
  rw [hsame, hconfig] at hcycles
  obtain ⟨r, hr, hscan⟩ := bind_eq_ok_iff.mp hscan
  obtain ⟨skip, hskip, horganization⟩ := bind_eq_ok_iff.mp horganization
  obtain ⟨a, ha, horganization⟩ := bind_eq_ok_iff.mp horganization
  obtain ⟨skip', hskip', hcycles⟩ := bind_eq_ok_iff.mp hcycles
  have hagain : skip' = skip := Except.ok.inj (hskip'.symm.trans hskip)
  rw [hagain] at hcycles
  obtain ⟨found, hfound, hcycles⟩ := bind_eq_ok_iff.mp hcycles
  have hflags := Config.eq_of_ofEnvironment (fun _ => mem_flagFields_of_scanValues) hc' hc
  rw [Survey.run_of_directory hplace] at hr
  obtain ⟨hfindings, hstats, hcircular, hcount⟩ :=
    Survey.agree_of_ofDirectory hdisk hflags hr hskip ha hfound
  cases hscan
  cases horganization
  cases hcycles
  exact ⟨_, _, _, rfl, rfl, rfl, agree_of_results hfindings hstats hcircular hcount⟩

/-- A repository with two scripts that import each other, two workspaces, and an ignore file. -/
def commandsDisk : Disk where
  tree := .directory [("r", .directory [
    (".wheelscanignore", .file (Utf8.encode "old".toList)),
    ("a.ts", .file (Utf8.encode "import './b'".toList)),
    ("b.ts", .file (Utf8.encode "import './a'".toList)),
    ("old", .directory [("c.ts", .file (Utf8.encode "import './c'".toList))]),
    ("package.json", .file (Utf8.encode "\x7b\x7d".toList)),
    ("ui", .directory [("package.json", .file (Utf8.encode "\x7b\x7d".toList))])])]

theorem run_agree_commands : ∃ scan organization cycles, commandsDisk.WellFormed
    ∧ run commandsDisk [("WHEELSCAN_EXTRA_SKIP_DIRS", "lib")] (.scan "/r" true true) = .ok scan
    ∧ run commandsDisk [("WHEELSCAN_EXTRA_SKIP_DIRS", "lib")] (.organization "/r")
      = .ok organization
    ∧ run commandsDisk [("WHEELSCAN_EXTRA_SKIP_DIRS", "lib")] (.cycles "/r") = .ok cycles
    ∧ (scan.exit = 0 ∧ organization.exit = 0 ∧ cycles.exit = 0)
    ∧ ∃ s o c, scan = .ofJson false s ∧ organization = .ofJson false o ∧ cycles = .ofJson true c
      ∧ Agree s o c := by
  have hdisk : commandsDisk.WellFormed := by decide +kernel
  have hexit : ∀ command ∈ [Command.scan "/r" true true, .organization "/r", .cycles "/r"],
      (run commandsDisk [("WHEELSCAN_EXTRA_SKIP_DIRS", "lib")] command).toOption.map (·.exit)
        = some 0 := by
    decide +kernel
  obtain ⟨scan, hscan, hscanned⟩ :=
    exists_ok_of_map_toOption (hexit (.scan "/r" true true) (by simp))
  obtain ⟨organization, horganization, hanalyzed⟩ :=
    exists_ok_of_map_toOption (hexit (.organization "/r") (by simp))
  obtain ⟨cycles, hcycles, hlisted⟩ :=
    exists_ok_of_map_toOption (hexit (.cycles "/r") (by simp))
  have hzero := And.intro hscanned (And.intro hanalyzed hlisted)
  exact ⟨scan, organization, cycles, hdisk, hscan, horganization, hcycles, hzero,
    run_agree hdisk hscan horganization hcycles hzero⟩

end Command

end RepoSurvey
