import RepoSurvey.Proofs.CommandLine.Agreement
import RepoSurvey.Proofs.Survey.Legible

/-!
# What a command prints is read back

* `Command.Payload`: the value that a command has to print;
* `Command.exists_payload`: a command that succeeds prints such a value and a line end;
* `Command.Payload.faithful`: none of these values is lost in writing;
* `Command.readsBack_of_run`: what a command prints is read as the value that it has to print.
-/

namespace RepoSurvey.Command

/-- The value that a command has to print. -/
inductive Payload (disk : Disk) (environment : Table String) : Command → Json → Prop
  | scan {path : String} {exactLines noProgress : Bool} {c : Config} {r : SurveyResult} :
      Config.ofEnvironment environment (scanValues exactLines noProgress) = .ok c →
      Survey.run disk (Path.ofText path) c = .ok r →
      Payload disk environment (.scan path exactLines noProgress) r.toJson
  | catalog : Payload disk environment (.catalog none) (.arr (Catalog.rules.map ruleJson))
  | domain {d : String} : d ∈ Catalog.domains →
      Payload disk environment (.catalog (some d))
        (.arr ((Catalog.inDomain Catalog.rules d).map ruleJson))
  | organization {path : String} {place : List String} {c : Config} {skip : NameSet}
      {a : Organization.Analysis} :
      disk.destination (Path.ofText path) = .ok (.directory place) →
      Config.ofEnvironment environment [] = .ok c →
      Skip.load disk ⟨true, place⟩ c.skipDirs = .ok skip →
      Organization.analyze disk ⟨true, place⟩ c skip = .ok a →
      Payload disk environment (.organization path) (organizationJson a)
  | cycles {path : String} {place : List String} {c : Config} {skip : NameSet}
      {found : List (List String)} :
      disk.destination (Path.ofText path) = .ok (.directory place) →
      Config.ofEnvironment environment [] = .ok c →
      Skip.load disk ⟨true, place⟩ c.skipDirs = .ok skip →
      Organization.cycles disk ⟨true, place⟩ (Inventory.collect disk ⟨true, place⟩ skip)
        (c.fileSize : Nat) = .ok found →
      Payload disk environment (.cycles path) (cyclesJson found)

/-- Does a command escape everything beyond ASCII? -/
def escapesAll : Command → Bool
  | .catalog _ => true
  | .cycles _ => true
  | _ => false

variable {disk : Disk} {environment : Table String} {command : Command} {out : Output} {j : Json}

/-- A command that succeeds prints the value that it has to print, unless it is the version. -/
theorem exists_payload (hcommand : command ≠ .version)
    (hrun : run disk environment command = .ok out) (hexit : out.exit = 0) :
    ∃ j, Payload disk environment command j ∧ out = .ofJson command.escapesAll j := by
  unfold run at hrun
  cases command with
  | version => exact absurd rfl hcommand
  | catalog domain =>
    cases domain with
    | none =>
      cases hrun
      exact ⟨_, .catalog, rfl⟩
    | some d =>
      by_cases hd : d ∈ Catalog.domains
      · simp only [catalogOutput, List.contains_iff_mem.mpr hd, ↓reduceIte] at hrun
        cases hrun
        exact ⟨_, .domain hd, rfl⟩
      · simp only [catalogOutput, List.contains_iff_mem, hd, ↓reduceIte] at hrun
        cases hrun
        cases hexit
  | scan path exactLines noProgress =>
    obtain ⟨c, hc, hrun⟩ := withConfig_eq_ok (withReadable_eq_ok hrun hexit) hexit
    obtain ⟨r, hr, hrun⟩ := bind_eq_ok_iff.mp hrun
    cases hrun
    exact ⟨_, .scan hc hr, rfl⟩
  | organization path =>
    obtain ⟨place, hplace, hrun⟩ := withDirectory_eq_ok hrun hexit
    obtain ⟨c, hc, hrun⟩ := withConfig_eq_ok hrun hexit
    obtain ⟨skip, hskip, hrun⟩ := bind_eq_ok_iff.mp hrun
    obtain ⟨a, ha, hrun⟩ := bind_eq_ok_iff.mp hrun
    cases hrun
    exact ⟨_, .organization hplace hc hskip ha, rfl⟩
  | cycles path =>
    obtain ⟨place, hplace, hrun⟩ := withDirectory_eq_ok hrun hexit
    obtain ⟨c, hc, hrun⟩ := withConfig_eq_ok hrun hexit
    obtain ⟨skip, hskip, hrun⟩ := bind_eq_ok_iff.mp hrun
    obtain ⟨found, hfound, hrun⟩ := bind_eq_ok_iff.mp hrun
    cases hrun
    exact ⟨_, .cycles hplace hc hskip hfound, rfl⟩

/-! ## The values -/

theorem faithful_ruleJson {r : Rule} (h : r ∈ Catalog.rules) : (ruleJson r).Faithful := by
  simp [ruleJson, Table.names, Catalog.readsBack_confidence r h]

theorem faithful_organizationJson {a : Organization.Analysis}
    (hfindings : ∀ f ∈ a.findings, f.Legible) (hconventions : a.stats.conventions.names.Nodup) :
    (organizationJson a).Faithful := by
  have hwritten : ∀ f ∈ a.findings, f.toJson.Faithful := fun f hf => f.faithful (hfindings f hf)
  simpa [organizationJson, Table.names, OrganizationStats.faithful hconventions] using hwritten

theorem faithful_cyclesJson (found : List (List String)) : (cyclesJson found).Faithful := by
  simp [cyclesJson, cycleJson, Table.names]

theorem Payload.faithful (h : Payload disk environment command j) : j.Faithful := by
  cases h with
  | scan _ hr => exact SurveyResult.faithful (Survey.legible_of_run hr)
  | catalog =>
    refine .arr fun j hj => ?_
    obtain ⟨r, hr, rfl⟩ := List.mem_map.mp hj
    exact faithful_ruleJson hr
  | domain _ =>
    refine .arr fun j hj => ?_
    obtain ⟨r, hr, rfl⟩ := List.mem_map.mp hj
    exact faithful_ruleJson (List.mem_of_mem_filter hr)
  | organization _ _ _ ha =>
    obtain ⟨hfindings, hconventions⟩ := Organization.legible_of_analyze ha
    exact faithful_organizationJson hfindings hconventions
  | cycles _ _ _ _ => exact faithful_cyclesJson _

/-! ## The printed text -/

theorem toList_printed (ascii : Bool) (j : Json) :
    (Output.ofJson ascii j).printed.toList = Json.render (.indented ascii) j ++ ['\n'] := by
  simp [Output.ofJson]

theorem readWithin_printed {limits : Json.Limits} (ascii : Bool) (hj : j.Faithful)
    (hfits : j.Fits limits) :
    Json.readWithin limits (Output.ofJson ascii j).printed.toList = .ok j := by
  rw [toList_printed]
  exact Json.readWithin_render hj hfits (Json.delimited_cons (by decide) []) rfl

theorem isAscii_printed (j : Json) : Text.IsAscii (Output.ofJson true j).printed.toList := by
  rw [toList_printed]
  exact Text.isAscii_append.mpr ⟨Json.isAscii_render (some 2) j, by decide⟩

/-- What a successful command prints is read as the value that it has to print, by a reader without
limits, and by any reader to whose limits the value keeps. The catalog and the cycles are printed in
ASCII. -/
theorem readsBack_of_run (hcommand : command ≠ .version)
    (hrun : run disk environment command = .ok out) (hexit : out.exit = 0) :
    ∃ j, Payload disk environment command j
      ∧ Json.readWithin {} out.printed.toList = .ok j
      ∧ (∀ limits, j.Fits limits → Json.readWithin limits out.printed.toList = .ok j)
      ∧ (command.escapesAll = true → Text.IsAscii out.printed.toList) := by
  obtain ⟨j, hj, rfl⟩ := exists_payload hcommand hrun hexit
  refine ⟨j, hj, readWithin_printed _ hj.faithful hj.faithful.fits,
    fun _ hfits => readWithin_printed _ hj.faithful hfits, fun hescapes => ?_⟩
  rw [hescapes]
  exact isAscii_printed j

/-- Two scripts that import each other, with a backslash, a tab and characters beyond ASCII in their
names. -/
def oddNamesDisk : Disk where
  tree := .directory [("r", .directory [
    ("a\\😀.ts", .file (Utf8.encode "import './b\té'".toList)),
    ("b\té.ts", .file (Utf8.encode "import './a\\😀'".toList))])]

def oddNamesText : String :=
  "\x7b\n  \"cycleCount\": 1,\n  \"cycles\": [\n    \x7b\n      \"length\": 2,\n"
    ++ "      \"severity\": \"warning\",\n      \"cycle\": [\n"
    ++ "        \"a\\\\\\ud83d\\ude00.ts\",\n        \"b\\t\\u00e9.ts\"\n"
    ++ "      ]\n    \x7d\n  ]\n\x7d\n"

theorem readsBack_of_run_oddNames : ∃ out, Command.cycles "/r" ≠ .version
    ∧ run oddNamesDisk [] (.cycles "/r") = .ok out ∧ out.exit = 0 ∧ out.printed = oddNamesText
    ∧ ∃ j, Payload oddNamesDisk [] (.cycles "/r") j
      ∧ Json.readWithin {} out.printed.toList = .ok j
      ∧ (∀ limits, j.Fits limits → Json.readWithin limits out.printed.toList = .ok j)
      ∧ (escapesAll (.cycles "/r") = true → Text.IsAscii out.printed.toList) := by
  have hfound : (run oddNamesDisk [] (.cycles "/r")).toOption.map (fun out =>
      (out.exit, out.printed)) = some (0, oddNamesText) := by
    decide +kernel
  obtain ⟨out, hrun, hout⟩ := exists_ok_of_map_toOption hfound
  obtain ⟨hexit, hprinted⟩ := Prod.mk.inj hout
  have hcommand : Command.cycles "/r" ≠ .version := by decide
  exact ⟨out, hcommand, hrun, hexit, hprinted, readsBack_of_run hcommand hrun hexit⟩

end RepoSurvey.Command
