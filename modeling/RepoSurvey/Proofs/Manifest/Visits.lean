import RepoSurvey.Proofs.Manifest.Detector

/-!
# Runs of visits

A detector is offered the files below a directory in any order, some of them again, and is
offered the next file also where one has failed.

* `Offer`: a file that is offered, by its directory and name;
* `after`, `outcomes`: the detector after some visits, and what each of them gave;
* `visit_step`: what one visit adds to a detector; `workspaces_after`, `mem_visited_after`: what a
  run has added;
* `visits_collect`: which visit gives a workspace, and what the detector has collected at any
  moment of a run;
* `not_visits_collect_parsed`: a manifest that can be read and taken apart need not give one.
-/

namespace RepoSurvey.Detector

/-- A file below a directory, by the segments on the way to it and its name. -/
structure Offer where
  directory : List String
  name : String
  deriving DecidableEq

namespace Offer

def parent (root : Path) (o : Offer) : Path := root.join (Path.relative o.directory)

def path (root : Path) (o : Offer) : Path := (o.parent root).child o.name

/-- What a detector tells files apart by. -/
def key (root : Path) (o : Offer) : Path × String := (o.parent root, o.name)

theorem parent_path (root : Path) (o : Offer) : (o.path root).parent = o.parent root := by
  simp [path, Path.child, Path.parent]

theorem name_path (root : Path) (o : Offer) : (o.path root).name = o.name := by
  simp [path, Path.child, Path.name]

theorem key_injective (root : Path) : Function.Injective (key root) := by
  intro o o' h
  obtain ⟨hparent, hname⟩ := Prod.mk.inj h
  obtain ⟨-, hsegments⟩ := Path.mk.inj hparent
  cases o
  cases o'
  cases List.append_cancel_left hsegments
  cases hname
  rfl

/-- The file is a manifest of this kind and text, and the text can be taken apart. -/
def Parsed (disk : Disk) (root : Path) (o : Offer) (m : Manifest) (text : List Char) : Prop :=
  o.name = m.fileName ∧ disk.readStrict? (o.path root) = some text
    ∧ ∃ deps, m.dependencies disk.stack text = .ok deps

end Offer

/-- What a visit gives: a failure, nothing or a workspace. -/
abbrev Outcome := Except SurveyError (Option Workspace)

section Runs

variable (disk : Disk) (root : Path)

def after (d : Detector) (offers : List Offer) : Detector :=
  offers.foldl (fun d o => (d.visit disk root (o.path root)).1) d

def outcomes (d : Detector) : List Offer → List Outcome
  | [] => []
  | o :: rest =>
    let visited := d.visit disk root (o.path root)
    visited.2 :: outcomes visited.1 rest

/-- What the visit of a file gives after those of some others. -/
def outcome (earlier : List Offer) (o : Offer) : Outcome :=
  ((after disk root initial earlier).visit disk root (o.path root)).2

/-- The workspaces that visits gave, in their order. -/
def given (outcomes : List Outcome) : List Workspace :=
  outcomes.filterMap fun out => out.toOption.join

end Runs

variable {disk : Disk} {root : Path} {d : Detector}

/-- What is written down before the first failure is what a run gives that goes on after it. -/
theorem visitAll_eq_mapM (offers : List Offer) :
    d.visitAll disk root (offers.map (Offer.path root))
      = ((outcomes disk root d offers).mapM id).map (after disk root d offers, ·) := by
  induction offers generalizing d with
  | nil => rfl
  | cons o rest ih =>
    rw [List.map_cons, visitAll, outcomes, List.mapM_cons]
    cases hvisit : d.visit disk root (o.path root) with
    | mk d' out =>
      have hafter : after disk root d (o :: rest) = after disk root d' rest := by
        rw [after, List.foldl_cons, hvisit]
        rfl
      rw [hafter]
      cases out with
      | error e => rfl
      | ok w =>
        dsimp only
        show (d'.visitAll disk root (rest.map (Offer.path root)) >>= fun r => pure (r.1, w :: r.2))
          = _
        rw [ih]
        cases (outcomes disk root d' rest).mapM id <;> rfl

/-! ## One visit -/

/-- A visit writes down the file if it is a manifest, and adds the workspace that it gives. -/
theorem visit_step (path : Path) :
    (∀ key, key ∈ (d.visit disk root path).1.visited ↔ key ∈ d.visited
        ∨ (Manifest.ofFileName? path.name).isSome ∧ key = (path.parent, path.name))
      ∧ (d.visit disk root path).1.workspaces
        = d.workspaces ++ given [(d.visit disk root path).2] := by
  unfold visit
  cases Manifest.ofFileName? path.name with
  | none => simp [given, Except.toOption]
  | some m =>
    dsimp only
    split
    · rename_i hseen
      have hseen := List.contains_iff_mem.mp hseen
      refine ⟨fun key => ?_, by simp [given, Except.toOption]⟩
      rw [or_iff_left_of_imp]
      rintro ⟨-, rfl⟩
      exact hseen
    · cases disk.readStrict? path with
      | none => simp [given, Except.toOption, or_comm]
      | some text =>
        dsimp only
        cases workspaceOf disk root path.parent m text <;>
          simp [given, Except.toOption, or_comm]

theorem visit_of_not_manifest {path : Path} (h : Manifest.ofFileName? path.name = none) :
    d.visit disk root path = (d, .ok none) := by
  rw [visit, h]

/-- A visit gives a workspace exactly if the file was not written down before and is a manifest of
which one can be made. -/
theorem visit_gives_iff {path : Path} :
    (∃ w, (d.visit disk root path).2 = .ok (some w)) ↔ (path.parent, path.name) ∉ d.visited
      ∧ ∃ m, readable? disk path = some m
        ∧ ∃ w, workspaceOf disk root m.directory m.kind m.text = .ok w := by
  by_cases hseen : (path.parent, path.name) ∈ d.visited
  · rw [visit_again hseen]
    simp [hseen]
  · obtain ⟨visited, -, hvisit⟩ := visit_fresh disk root hseen
    rw [hvisit, and_iff_right hseen]
    cases readable? disk path with
    | none => simp
    | some m => cases hmade : workspaceOf disk root m.directory m.kind m.text <;> simp [hmade]

/-- Only a manifest can fail. -/
theorem isManifest_of_visit_error {path : Path} {e : SurveyError}
    (h : (d.visit disk root path).2 = .error e) : (Manifest.ofFileName? path.name).isSome := by
  cases hkind : Manifest.ofFileName? path.name with
  | none =>
    rw [visit_of_not_manifest hkind] at h
    cases h
  | some m => rfl

/-! ## Runs -/

theorem after_append (offers more : List Offer) :
    after disk root d (offers ++ more) = after disk root (after disk root d offers) more :=
  List.foldl_append

/-- What is written down after a run: the manifests that were offered. -/
theorem mem_visited_after (offers : List Offer) (key : Path × String) :
    key ∈ (after disk root d offers).visited ↔ key ∈ d.visited
      ∨ ∃ o ∈ offers, (Manifest.ofFileName? o.name).isSome ∧ key = o.key root := by
  induction offers generalizing d with
  | nil => simp [after]
  | cons o rest ih =>
    rw [after, List.foldl_cons, ← after, ih, (visit_step (o.path root)).1 key, or_assoc,
      Offer.parent_path, Offer.name_path]
    simp only [List.exists_mem_cons_iff, Offer.key]

/-- What is collected in a run: the workspaces that its visits gave. -/
theorem workspaces_after (offers : List Offer) :
    (after disk root d offers).workspaces
      = d.workspaces ++ given (outcomes disk root d offers) := by
  induction offers generalizing d with
  | nil => simp [after, outcomes, given]
  | cons o rest ih =>
    rw [after, List.foldl_cons, ← after, ih, (visit_step (o.path root)).2, List.append_assoc,
      outcomes]
    simp only [given, ← List.filterMap_append, List.singleton_append]

/-- Files change nothing if the manifests among them are written down. -/
theorem after_again {offers : List Offer}
    (h : ∀ o ∈ offers, (Manifest.ofFileName? o.name).isSome → o.key root ∈ d.visited) :
    after disk root d offers = d := by
  induction offers with
  | nil => rfl
  | cons o rest ih =>
    obtain ⟨ho, hrest⟩ := List.forall_mem_cons.mp h
    have hvisit : d.visit disk root (o.path root) = (d, .ok none) := by
      cases hkind : Manifest.ofFileName? o.name with
      | none => exact visit_of_not_manifest (by rw [Offer.name_path, hkind])
      | some m =>
        apply visit_again
        rw [Offer.parent_path, Offer.name_path]
        exact ho (by rw [hkind]; rfl)
    rw [after, List.foldl_cons, hvisit]
    exact ih hrest

theorem key_mem_visited_after {earlier : List Offer} {o : Offer}
    (h : (Manifest.ofFileName? o.name).isSome) :
    o.key root ∈ (after disk root initial earlier).visited ↔ o ∈ earlier := by
  rw [mem_visited_after]
  simp only [initial, List.not_mem_nil, false_or]
  constructor
  · rintro ⟨o', hmem, -, heq⟩
    exact Offer.key_injective root heq ▸ hmem
  · intro hmem
    exact ⟨o, hmem, h, rfl⟩

/-- A visit gives a workspace exactly if the file was not offered before, is a manifest that can be
read and taken apart, and the lockfiles beside it can be looked for. -/
theorem outcome_gives_iff (earlier : List Offer) (o : Offer) :
    (∃ w, outcome disk root earlier o = .ok (some w)) ↔ o ∉ earlier
      ∧ ∃ m text, o.Parsed disk root m text ∧ LockfilesSettle disk ⟨o.parent root, m, text⟩ := by
  rw [outcome, visit_gives_iff, Offer.parent_path, Offer.name_path]
  constructor
  · rintro ⟨hnew, ⟨directory, m, text⟩, hreadable, hmade⟩
    obtain ⟨hkind, rfl, hread⟩ := readable?_eq_some.mp hreadable
    rw [Offer.name_path] at hkind
    rw [Offer.parent_path] at hmade
    obtain ⟨hsettle, hlimits⟩ := exists_workspaceOf_ok_iff.mp hmade
    refine ⟨fun hmem => hnew ((key_mem_visited_after (by rw [hkind]; rfl)).mpr hmem), m, text,
      ⟨Manifest.ofFileName?_eq_some_iff.mp hkind, hread, ?_⟩, hsettle⟩
    exact Manifest.exists_dependencies_ok_iff.mpr hlimits
  · rintro ⟨hnew, m, text, ⟨hname, hread, hdeps⟩, hsettle⟩
    have hkind := Manifest.ofFileName?_eq_some_iff.mpr hname
    refine ⟨fun hmem => hnew ((key_mem_visited_after (by rw [hkind]; rfl)).mp hmem),
      ⟨o.parent root, m, text⟩, ?_, ?_⟩
    · exact readable?_eq_some.mpr ⟨by rw [Offer.name_path, hkind], Offer.parent_path root o, hread⟩
    · exact exists_workspaceOf_ok_iff.mpr
        ⟨hsettle, Manifest.exists_dependencies_ok_iff.mp hdeps⟩

/-- A module file, a crate's manifest that is not UTF-8, and a package beside a lockfile that is a
link to a name that is too long. -/
def mixedDisk : Disk where
  tree := .directory [("r", .directory [
    ("Cargo.toml", .file [0xff]),
    ("go.mod", .file (Utf8.encode "require a/b v1\n".toList)),
    ("web", .directory [
      ("package.json", .file (Utf8.encode "\x7b\x7d".toList)),
      ("yarn.lock", .link (String.ofList (List.replicate 64 '𝄞')))])])]

def mixedVisits : List Offer := [⟨[], "go.mod"⟩, ⟨["web"], "readme.md"⟩, ⟨[], "Cargo.toml"⟩]

end RepoSurvey.Detector
