import RepoSurvey.Proofs.Design.Upward

/-!
# Which upward dependencies are reported

A dependency points up if the package that it names stands in a higher layer. Every one is
reported, but for those of tokens and configs on applications, which are looked for below the user
interface only.

* `Layer.mem_above_iff`: the layers that are looked through, by their heights;
* `Design.DependsUpward`: a dependency on a workspace in a higher layer;
* `Design.mem_violations_iff`: the violations among the findings of an analysis;
* `Design.reported_of_dependsUpward`: which dependencies are reported.
-/

namespace RepoSurvey

/-- All higher layers are looked through, but applications for the user interface alone. -/
theorem Layer.mem_above_iff {lower upper : Layer} :
    upper ∈ lower.above ↔ lower.height < upper.height ∧ (upper = .app → lower = .ui) := by
  cases lower <;> cases upper <;> decide

namespace Design

variable {disk : Disk} {root : Path} {workspaces : List Workspace}

/-- A workspace depends on another one in a higher layer, by the name that the package there
declares. -/
structure DependsUpward (disk : Disk) (root : Path) (w v : Workspace) (lower upper : Layer) :
    Prop where
  source : Layer.ofRoot? w.root = some lower
  target : Layer.ofRoot? v.root = some upper
  higher : lower.height < upper.height
  declared : ∃ name ∈ w.dependencies.names, Declares disk (placeOf root v.root) name

/-- The violations among the findings are the dependencies that are looked for. -/
theorem mem_violations_iff {a : Analysis} (h : analyze disk root workspaces = .ok a)
    {f : Finding} : f ∈ a.findings ∧ f.kind = .dependencyViolation
      ↔ ∃ e ∈ upwardEdges disk root workspaces, e.finding = f := by
  obtain ⟨presets, colors, hfilter⟩ := filter_findings h
  have hviolations : a.findings.filter (fun f => f.kind = .dependencyViolation)
      = (upwardEdges disk root workspaces).map UpwardEdge.finding :=
    (hfilter _).trans (by simp)
  rw [← List.mem_map, ← hviolations, List.mem_filter, decide_eq_true_eq]

/-- A violation names the two workspaces, and the second is in a layer that is looked through for
the first. -/
theorem mem_above_of_paths {e : UpwardEdge} (he : e ∈ upwardEdges disk root workspaces)
    {w v : Workspace} {lower upper : Layer} (hup : DependsUpward disk root w v lower upper)
    (hpaths : e.finding.paths = [w.root, v.root]) : upper ∈ lower.above := by
  obtain ⟨_, hlayer, _, _, ⟨other, hother, htarget⟩, _⟩ := mem_upwardEdges.mp he
  have hroots : e.source.root = w.root ∧ e.target.root = v.root := by
    simpa [UpwardEdge.finding, violation] using hpaths
  rw [hroots.1, hup.source] at hlayer
  rw [hroots.2, hup.target] at htarget
  cases hlayer
  cases htarget
  exact hother

/-- An upward dependency is reported as critical, unless a workspace of tokens or configs depends on
an application. Such a dependency is not reported at all. -/
theorem reported_of_dependsUpward {a : Analysis} (h : analyze disk root workspaces = .ok a)
    {w v : Workspace} (hw : w ∈ workspaces) (hv : v ∈ workspaces) {lower upper : Layer}
    (hup : DependsUpward disk root w v lower upper) :
    ((upper = .app → lower = .ui) → ∃ f ∈ a.findings, f.kind = .dependencyViolation
        ∧ f.severity = .critical ∧ f.paths = [w.root, v.root])
      ∧ (upper = .app → lower ≠ .ui → ∀ f ∈ a.findings, f.kind = .dependencyViolation →
        f.paths ≠ [w.root, v.root]) := by
  constructor
  · intro hlooked
    obtain ⟨name, hname, hdeclares⟩ := hup.declared
    have habove : upper ∈ lower.above := Layer.mem_above_iff.mpr ⟨hup.higher, hlooked⟩
    have hedge : (⟨w, lower, name, v⟩ : UpwardEdge) ∈ upwardEdges disk root workspaces :=
      mem_upwardEdges.mpr ⟨hw, hup.source, hname, hv, ⟨upper, habove, hup.target⟩, hdeclares⟩
    obtain ⟨hmem, hkind⟩ := (mem_violations_iff h).mpr ⟨_, hedge, rfl⟩
    exact ⟨_, hmem, hkind, rfl, rfl⟩
  · intro happ hnotUi f hf hkind hpaths
    obtain ⟨e, he, rfl⟩ := (mem_violations_iff h).mp ⟨hf, hkind⟩
    exact hnotUi ((Layer.mem_above_iff.mp (mem_above_of_paths he hup hpaths)).2 happ)

/-- A repository in which tokens depend on an application, and a user interface as well. -/
def appDisk : Disk where
  tree := .directory [("r", .directory [
    ("apps", .directory [("web", packageWith "\"web\"")]),
    ("packages", .directory [("tokens", packageWith "\"@a/tokens\""),
      ("ui", packageWith "\"@a/ui\"")])])]

def appWorkspace : Workspace := ⟨"apps/web", "npm", "typescript", []⟩

def tokensOnApp : Workspace := ⟨"packages/tokens", "npm", "typescript", [("web", "*")]⟩

def uiOnApp : Workspace := ⟨"packages/ui", "npm", "typescript", [("web", "*")]⟩

theorem dependsUpward_app {w : Workspace} {lower : Layer}
    (hsource : Layer.ofRoot? w.root = some lower) (hhigher : lower.height < Layer.app.height)
    (hname : "web" ∈ w.dependencies.names) :
    DependsUpward appDisk ⟨true, ["r"]⟩ w appWorkspace lower .app :=
  ⟨hsource, by decide +kernel, hhigher, "web", hname, by decide +kernel⟩

/-- Of two workspaces that depend on the same application one is reported. -/
theorem reported_of_dependsUpward_apps : ∃ a,
    analyze appDisk ⟨true, ["r"]⟩ [appWorkspace, tokensOnApp, uiOnApp] = .ok a
      ∧ DependsUpward appDisk ⟨true, ["r"]⟩ uiOnApp appWorkspace .ui .app
      ∧ DependsUpward appDisk ⟨true, ["r"]⟩ tokensOnApp appWorkspace .tokens .app
      ∧ (∃ f ∈ a.findings, f.kind = .dependencyViolation ∧ f.severity = .critical
        ∧ f.paths = ["packages/ui", "apps/web"])
      ∧ ∀ f ∈ a.findings, f.kind = .dependencyViolation →
        f.paths ≠ ["packages/tokens", "apps/web"] := by
  obtain ⟨a, ha⟩ := exists_ok_of_isSome
    (show (analyze appDisk ⟨true, ["r"]⟩ [appWorkspace, tokensOnApp, uiOnApp]).toOption.isSome
      = true by decide +kernel)
  have hui : DependsUpward appDisk ⟨true, ["r"]⟩ uiOnApp appWorkspace .ui .app :=
    dependsUpward_app (by decide +kernel) (by decide) (by decide)
  have htokens : DependsUpward appDisk ⟨true, ["r"]⟩ tokensOnApp appWorkspace .tokens .app :=
    dependsUpward_app (by decide +kernel) (by decide) (by decide)
  refine ⟨a, ha, hui, htokens, ?_, ?_⟩
  · exact (reported_of_dependsUpward ha (by simp) (by simp) hui).1 fun _ => rfl
  · exact (reported_of_dependsUpward ha (by simp) (by simp) htokens).2 rfl (by decide)

/-- Tokens that depend on an application point up, from the bottom of the stack to its top, but no
violation is reported. -/
theorem not_reported_tokensOnApp : ∃ a,
    analyze appDisk ⟨true, ["r"]⟩ [appWorkspace, tokensOnApp] = .ok a
      ∧ DependsUpward appDisk ⟨true, ["r"]⟩ tokensOnApp appWorkspace .tokens .app
      ∧ ∀ f ∈ a.findings, f.kind ≠ .dependencyViolation := by
  have hkinds : (analyze appDisk ⟨true, ["r"]⟩ [appWorkspace, tokensOnApp]).toOption.map
      (·.findings.map (·.kind)) = some [.missingLayer] := by
    decide +kernel
  obtain ⟨a, ha, hfound⟩ := exists_ok_of_map_toOption hkinds
  refine ⟨a, ha, dependsUpward_app (by decide +kernel) (by decide) (by decide), ?_⟩
  intro f hf hkind
  have hmem : f.kind ∈ a.findings.map (·.kind) := List.mem_map_of_mem hf
  rw [hfound, hkind] at hmem
  exact absurd hmem (by decide)

end Design

end RepoSurvey
