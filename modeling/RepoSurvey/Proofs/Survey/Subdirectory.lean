import RepoSurvey.Proofs.Disk.Subtree
import RepoSurvey.Proofs.Survey.Detections
import RepoSurvey.Proofs.Survey.Workspaces

/-!
# The survey of a part of a repository

A directory that the walk of a repository enters can be surveyed by itself. What is detected in it
and the workspaces in it are then told by paths from there.

* `Path.isUnder_joined_iff`: the texts of paths below a directory;
* `Catalog.detect_inFile`: what is found in a text does not depend on the directory of the file;
* `Survey.detectionsIn`, `Survey.workspacesIn`: what a survey takes from one file of the walk;
* `Survey.flatMap_movedInto`: what is taken from the files of a part of a walk;
* `Survey.Part`, `Survey.Part.detections`, `Survey.Part.workspaces`: what is taken in a part is what
  is taken in the whole, below the part;
* `Survey.run_subdirectory`: the survey of the part beside that of the whole.
-/

namespace RepoSurvey

/-! ## Texts of paths -/

namespace Path

/-- The text of a path that goes on below a directory. -/
def isUnder (directory file : String) : Bool := file.startsWith (directory ++ "/")

theorem joined_append {p q : List String} (hp : p ≠ []) (hq : q ≠ []) :
    joined (p ++ q) = joined p ++ "/" ++ joined q :=
  String.intercalate_append_of_ne_nil hp hq

theorem isUnder_joined_iff {sub path : List String} (hsub : sub ≠ []) (hpath : path ≠ [])
    (hsubs : ∀ s ∈ sub, '/' ∉ s.toList) (hpaths : ∀ s ∈ path, '/' ∉ s.toList) :
    isUnder (joined sub) (joined path) = true ↔ ∃ rest, rest ≠ [] ∧ path = sub ++ rest := by
  rw [isUnder, String.startsWith_string_iff]
  constructor
  · rintro ⟨more, hmore⟩
    have htext : joined path = joined sub ++ "/" ++ String.ofList more :=
      String.toList_inj.mp (by rw [String.toList_append, String.toList_ofList, hmore])
    have hsplit := splitSlashes_joined hpath hpaths
    rw [htext, splitSlashes_slash, splitSlashes_joined hsub hsubs] at hsplit
    exact ⟨_, by simp [splitSlashes, Text.splitAtEvery_ne_nil], hsplit.symm⟩
  · rintro ⟨rest, hrest, rfl⟩
    rw [joined_append hsub hrest, String.toList_append, String.toList_append, String.toList_append]
    exact List.prefix_append _ _

/-- The text of a path that starts at a directory, told by its text from there. -/
theorem text_relative_append {sub path : List String} (hsub : sub ≠ [])
    (hpaths : ∀ s ∈ path, Name.Proper s) : (relative (sub ++ path)).text
      = if (relative path).text = "." then joined sub
        else joined sub ++ "/" ++ (relative path).text := by
  have hdot : (relative path).text = "." ↔ path = [] :=
    ⟨fun h => text_relative_inj hpaths (q := []) (by simp) h, fun h => by rw [h]; rfl⟩
  rw [text_relative (by simp [hsub])]
  by_cases hpath : path = []
  · rw [if_pos (hdot.mpr hpath), hpath, List.append_nil]
  · rw [if_neg fun h => hpath (hdot.mp h), joined_append hsub hpath, text_relative hpath]

/-- The text of a path that is `directory` itself or goes on below it. -/
def isAtOrUnder (directory file : String) : Bool := file == directory || isUnder directory file

theorem isAtOrUnder_text_iff {sub path : List String} (hsub : sub ≠ [])
    (hsubs : ∀ s ∈ sub, Name.Proper s) (hpaths : ∀ s ∈ path, Name.Proper s) :
    isAtOrUnder (joined sub) (relative path).text = true ↔ ∃ rest, path = sub ++ rest := by
  have hsame : (relative path).text = joined sub ↔ path = sub := by
    rw [← text_relative hsub]
    exact ⟨text_relative_inj hpaths hsubs, fun h => by rw [h]⟩
  rw [isAtOrUnder, Bool.or_eq_true, beq_iff_eq, hsame]
  by_cases hpath : path = []
  · have hdot : isUnder (joined sub) (relative path).text = false := by
      rw [hpath, ← Bool.not_eq_true, isUnder, String.startsWith_string_iff]
      intro hprefix
      have hslash : '/' ∈ (joined sub ++ "/").toList := by simp
      have hmem := hprefix.subset hslash
      revert hmem
      decide
    rw [hdot, hpath]
    simp [hsub, eq_comm]
  · rw [text_relative hpath, isUnder_joined_iff hsub hpath (fun s hs => (hsubs s hs).slash_free)
      fun s hs => (hpaths s hs).slash_free]
    constructor
    · rintro (rfl | ⟨rest, _, rfl⟩)
      · exact ⟨[], by simp⟩
      · exact ⟨rest, rfl⟩
    · rintro ⟨rest, rfl⟩
      by_cases hrest : rest = []
      · exact Or.inl (by rw [hrest, List.append_nil])
      · exact Or.inr ⟨rest, hrest, rfl⟩

end Path

/-! ## Detections -/

/-- The same detection in another file. -/
def Detection.inFile (file : String) (d : Detection) : Detection := { d with file := file }

/-- The same detection, by the path of its file from further up. -/
def Detection.movedInto (sub : List String) (d : Detection) : Detection :=
  d.inFile (Path.joined sub ++ "/" ++ d.file)

theorem Checked.toExcept_map {α β : Type} (f : α → β) (x : Checked α) :
    (f <$> x).toExcept = x.toExcept.map f := by
  cases x <;> rfl

theorem Detection.make?_inFile {file file' : String} (hfile : file.isEmpty = false)
    (hfile' : file'.isEmpty = false) (lines : LineRange) (rule : String) (confidence : Numeral)
    (domain : String) : make? file' lines rule confidence domain
      = inFile file' <$> make? file lines rule confidence domain := by
  rw [make?, make?, Checked.nonEmptyText_valid hfile, Checked.nonEmptyText_valid hfile']
  generalize (Checked.nonEmptyText (.str rule)).under (.field ruleName.plain) = checkedRule
  generalize (Checked.unitReal (.float confidence.toBinary64)).under
    (.field confidenceName.plain) = checkedConfidence
  cases checkedRule <;> cases checkedConfidence <;> rfl

/-- What is made of each result in turn. -/
theorem mapM_map_results {ε α β γ : Type} (f : α → Except ε β) (g : β → γ) (xs : List α) :
    (xs.mapM fun x => (f x).map g) = (xs.mapM f).map (List.map g) := by
  induction xs with
  | nil => rfl
  | cons x xs ih =>
    rw [List.mapM_cons, List.mapM_cons, ih]
    cases f x with
    | error e => rfl
    | ok y => cases xs.mapM f <;> rfl

namespace Catalog

variable {file file' : String} (hfile : file.isEmpty = false) (hfile' : file'.isEmpty = false)

include hfile hfile'

theorem detectPattern_inFile (lines : List (List Char)) (radius : Int) (r : Rule) (p : Pattern) :
    detectPattern file' lines radius r p
      = (detectPattern file lines radius r p).map (List.map (Detection.inFile file')) := by
  rw [detectPattern, detectPattern]
  cases firstLine? p lines with
  | none => rfl
  | some line =>
    dsimp only
    cases (LineRange.around line lines.length radius).toExcept with
    | error e => rfl
    | ok range =>
      have hmake := congrArg Checked.toExcept
        (Detection.make?_inFile hfile hfile' range r.id r.confidence r.domain)
      rw [Checked.toExcept_map] at hmake
      calc (Except.ok range >>= fun range =>
            (Detection.make? file' range r.id r.confidence r.domain).toExcept >>= fun d => pure [d])
          = (((Detection.make? file range r.id r.confidence r.domain).toExcept.map
              (Detection.inFile file')) >>= fun d => pure [d]) := by rw [← hmake]; rfl
        _ = _ := by
          show _ = Except.map _ ((Detection.make? file range r.id r.confidence
            r.domain).toExcept >>= fun d => pure [d])
          cases (Detection.make? file range r.id r.confidence r.domain).toExcept <;> rfl

theorem detectRule_inFile (lines : List (List Char)) (radius : Int) (r : Rule) :
    detectRule file' lines radius r
      = (detectRule file lines radius r).map (List.map (Detection.inFile file')) := by
  have hpatterns : r.code.mapM (detectPattern file' lines radius r)
      = (r.code.mapM (detectPattern file lines radius r)).map
        (List.map (List.map (Detection.inFile file'))) := by
    rw [← mapM_map_results]
    exact mapM_congr fun p _ => detectPattern_inFile hfile hfile' lines radius r p
  rw [detectRule, detectRule, hpatterns]
  cases r.code.mapM (detectPattern file lines radius r) with
  | error e => rfl
  | ok found => exact congrArg Except.ok List.map_flatten.symm

/-- What is found in a text depends on the path of its file through the name only, and says where it
is found. -/
theorem detect_inFile (rs : List Rule) (hname : (Path.ofText file').name = (Path.ofText file).name)
    (text : List Char) (radius limit : Int) : detect rs file' text radius limit
      = (detect rs file text radius limit).map (List.map (Detection.inFile file')) := by
  have happlicable : applicable rs (Path.ofText file') = applicable rs (Path.ofText file) := by
    refine List.filter_congr fun r _ => ?_
    simp only [Rule.appliesTo, FileGlob.holds, hname]
  have hrules : ∀ lines, ((applicable rs (Path.ofText file)).mapM (detectRule file' lines radius))
      = ((applicable rs (Path.ofText file)).mapM (detectRule file lines radius)).map
        (List.map (List.map (Detection.inFile file'))) := by
    intro lines
    rw [← mapM_map_results]
    exact mapM_congr fun r _ => detectRule_inFile hfile hfile' lines radius r
  rw [detect, detect, happlicable]
  split
  · rfl
  · dsimp only
    rw [hrules]
    cases (applicable rs (Path.ofText file)).mapM (detectRule file (Text.lines text) radius) with
    | error e => rfl
    | ok found => exact congrArg Except.ok List.map_flatten.symm

end Catalog

/-- The same workspace, by its path from further up. -/
def Workspace.movedInto (sub : List String) (w : Workspace) : Workspace :=
  { w with root := if w.root = "." then Path.joined sub else Path.joined sub ++ "/" ++ w.root }

namespace Survey

variable {disk : Disk} {skip : NameSet} {place sub : List String} {c : Config}

/-! ## What is taken from a file -/

theorem eq_flatMap_of_mapM_filterMap {ε α β γ : Type} {f : β → Except ε γ} {g : α → Option β}
    {xs : List α} {ys : List γ} (h : (xs.filterMap g).mapM f = .ok ys) :
    ys = xs.flatMap fun x => ((g x).bind fun b => (f b).toOption).toList := by
  induction xs generalizing ys with
  | nil =>
    cases h
    rfl
  | cons x xs ih =>
    rw [List.filterMap_cons] at h
    rw [List.flatMap_cons]
    cases hx : g x with
    | none =>
      rw [hx] at h
      exact ih h
    | some b =>
      rw [hx, List.mapM_cons] at h
      obtain ⟨y, hy, h⟩ := bind_eq_ok_iff.mp h
      obtain ⟨rest, hrest, h⟩ := bind_eq_ok_iff.mp h
      cases h
      rw [Option.bind_some, hy, ← ih hrest]
      rfl

/-- The detections of a file of the walk. -/
def detectionsIn (disk : Disk) (root : Path) (c : Config) (e : WalkEntry) : List Detection :=
  (searchFile disk root c e).toOption.getD []

/-- The workspace of a file of the walk, if it is a manifest that can be read. -/
def workspacesIn (disk : Disk) (root : Path) (e : WalkEntry) : List Workspace :=
  ((Detector.readable? disk (Path.below root e.path)).bind fun m =>
    (Detector.workspaceOf disk root m.directory m.kind m.text).toOption).toList

theorem eq_flatMap_of_detectAll {root : Path} {files : List WalkEntry} {ds : List Detection}
    (h : detectAll disk root c files = .ok ds) : ds = files.flatMap (detectionsIn disk root c) := by
  obtain ⟨found, hfound, rfl⟩ := detectAll_eq_ok h
  exact flatten_eq_flatMap_of_mapM hfound

theorem eq_flatMap_of_visitAll (hdisk : disk.WellFormed) {root : Path}
    {d : Detector × List (Option Workspace)}
    (h : Detector.initial.visitAll disk root (filePlaces root (Walk.entries disk root skip))
      = .ok d) :
    d.1.workspaces = (Walk.files disk root skip).flatMap (workspacesIn disk root) := by
  have hmade := made_of_visitAll hdisk h
  rw [made, manifests, Detector.readable, filePlaces, List.filterMap_map] at hmade
  exact eq_flatMap_of_mapM_filterMap hmade

/-- What is taken from the files of a part of a walk is what is taken from the files below it, if
what is taken tells where it is from. -/
theorem flatMap_movedInto {β : Type} {files files' : List WalkEntry} {f f' : WalkEntry → List β}
    {move : β → β} {under : β → Bool}
    (hfiles : files'.map (WalkEntry.movedInto sub) = files.filter (WalkEntry.isBelow sub))
    (hunder : ∀ e ∈ files, ∀ y ∈ f e, under y = e.isBelow sub)
    (hmove : ∀ e ∈ files', f (e.movedInto sub) = (f' e).map move) :
    (files'.flatMap f').map move = (files.flatMap f).filter under := by
  have hfiltered : (files.flatMap f).filter under
      = (files.filter (WalkEntry.isBelow sub)).flatMap f := by
    clear hfiles
    induction files with
    | nil => rfl
    | cons e files ih =>
      obtain ⟨he, hrest⟩ := List.forall_mem_cons.mp hunder
      rw [List.flatMap_cons, List.filter_append, ih hrest, List.filter_congr he]
      cases hbelow : e.isBelow sub with
      | true => rw [List.filter_true, List.filter_cons_of_pos hbelow, List.flatMap_cons]
      | false =>
        rw [List.filter_false, List.nil_append, List.filter_cons_of_neg (by rw [hbelow]; simp)]
  rw [hfiltered, ← hfiles, List.flatMap_map, List.map_flatMap]
  exact (List.flatMap_congr hmove).symm

/-! ## The same file from two directories -/

theorem name_movedInto {e : WalkEntry} (he : e.path ≠ []) :
    (e.movedInto sub).name = e.name := by
  rw [WalkEntry.name, WalkEntry.name, List.getLastD_eq_getLast?, List.getLastD_eq_getLast?,
    WalkEntry.movedInto, List.getLast?_append_of_ne_nil _ he]

theorem below_movedInto (e : WalkEntry) :
    Path.below ⟨true, place⟩ (e.movedInto sub).path
      = Path.below ⟨true, place ++ sub⟩ e.path := by
  simp [Path.below, WalkEntry.movedInto]

theorem text_movedInto (hsub : sub ≠ []) {e : WalkEntry} (he : e.path ≠ []) :
    (e.movedInto sub).text = Path.joined sub ++ "/" ++ e.text :=
  Path.joined_append hsub he

/-- The name of a file is read off the text of its path. -/
theorem name_ofText {path : List String} (hpath : path ≠ []) (h : ∀ s ∈ path, Name.Proper s) :
    (Path.ofText (Path.joined path)).name = path.getLastD "" := by
  rw [← Path.text_relative hpath, Path.ofText_text_relative h, List.getLastD_eq_getLast?]
  rfl

/-- The workspace that is made of a manifest, but for its place, does not depend on the root. -/
theorem workspaceOf_eq_map (disk : Disk) (root root' directory : Path) (m : Manifest)
    (text : List Char) : Detector.workspaceOf disk root directory m text
      = (Detector.workspaceOf disk root' directory m text).map fun w =>
        { w with root := (Path.relative (directory.segments.drop root.segments.length)).text } := by
  rw [Detector.workspaceOf, Detector.workspaceOf]
  cases Detector.managerOf disk directory m with
  | error e => rfl
  | ok manager => cases m.dependencies disk.stack text <;> rfl

/-- The detections of a file are the same from further up, by its path from there. -/
theorem detectionsIn_movedInto (hdisk : disk.WellFormed) (hsub : sub ≠ []) {e : WalkEntry}
    (he : e ∈ Walk.entries disk ⟨true, place ++ sub⟩ skip)
    (hmoved : e.movedInto sub ∈ Walk.entries disk ⟨true, place⟩ skip) :
    detectionsIn disk ⟨true, place⟩ c (e.movedInto sub)
      = (detectionsIn disk ⟨true, place ++ sub⟩ c e).map (Detection.movedInto sub) := by
  obtain ⟨hne, hproper⟩ := Walk.proper_of_mem_entries hdisk.named he
  obtain ⟨hmovedNe, hmovedProper⟩ := Walk.proper_of_mem_entries hdisk.named hmoved
  have hname : (Path.ofText (e.movedInto sub).text).name = (Path.ofText e.text).name := by
    rw [WalkEntry.text, WalkEntry.text,
      name_ofText hmovedNe fun s hs => (hmovedProper s hs).toProper,
      name_ofText hne fun s hs => (hproper s hs).toProper]
    exact name_movedInto hne
  rw [detectionsIn, detectionsIn, searchFile, searchFile, below_movedInto, detectFile, detectFile]
  cases disk.readLenient? (Path.below ⟨true, place ++ sub⟩ e.path) with
  | none => rfl
  | some text =>
    dsimp only
    rw [Catalog.detect_inFile (text_ne_empty_of_mem_entries hdisk he)
      (text_ne_empty_of_mem_entries hdisk hmoved) Catalog.rules hname]
    cases hfound : Catalog.detect Catalog.rules e.text text c.contextRadius (c.fileSize : Nat) with
    | error failures => rfl
    | ok ds =>
      refine List.map_congr_left fun d hd => ?_
      obtain ⟨rule, _, hof⟩ := Catalog.exists_rule_of_mem_detect hfound hd
      rw [Detection.movedInto, hof.file, text_movedInto hsub hne]

/-- The workspace of a manifest is the same from further up, by its path from there. -/
theorem workspacesIn_movedInto (hdisk : disk.WellFormed) (hsub : sub ≠ []) {e : WalkEntry}
    (he : e ∈ Walk.entries disk ⟨true, place ++ sub⟩ skip) :
    workspacesIn disk ⟨true, place⟩ (e.movedInto sub)
      = (workspacesIn disk ⟨true, place ++ sub⟩ e).map (Workspace.movedInto sub) := by
  obtain ⟨_, hproper⟩ := Walk.proper_of_mem_entries hdisk.named he
  rw [workspacesIn, workspacesIn, below_movedInto]
  cases hm : Detector.readable? disk (Path.below ⟨true, place ++ sub⟩ e.path) with
  | none => rfl
  | some m =>
    obtain ⟨_, hdirectory, _⟩ := Detector.readable?_eq_some.mp hm
    rw [(below_of_mem_entries hdisk he).1] at hdirectory
    have hroot : m.directory.segments.drop place.length = sub ++ e.path.dropLast := by
      rw [← hdirectory, Path.below, List.append_assoc, List.drop_left]
    have hroot' : m.directory.segments.drop (place ++ sub).length = e.path.dropLast := by
      rw [← hdirectory, Path.below, List.drop_left]
    have hmove := workspaceOf_eq_map disk ⟨true, place⟩ ⟨true, place ++ sub⟩ m.directory m.kind
      m.text
    have hsame := workspaceOf_eq_map disk ⟨true, place ++ sub⟩ ⟨true, place ++ sub⟩ m.directory
      m.kind m.text
    rw [hroot, Path.text_relative_append hsub fun s hs =>
      (hproper s (List.dropLast_subset _ hs)).toProper] at hmove
    rw [hroot'] at hsame
    rw [Option.bind_some, Option.bind_some, hmove]
    cases hw : Detector.workspaceOf disk ⟨true, place ++ sub⟩ m.directory m.kind m.text with
    | error e => rfl
    | ok w =>
      rw [hw] at hsame
      have hwroot : w.root = (Path.relative e.path.dropLast).text :=
        congrArg Workspace.root (Except.ok.inj hsame)
      rw [← hwroot]
      rfl

/-! ## Where the parts of the whole lie -/

/-- Whether something is below a directory shows in the text of its path. -/
theorem isUnder_text (hsub : sub ≠ []) (hsubs : ∀ s ∈ sub, Name.Proper s) {e : WalkEntry}
    (he : e.path ≠ []) (hes : ∀ s ∈ e.path, Name.Proper s) :
    Path.isUnder (Path.joined sub) e.text = e.isBelow sub := by
  rw [Bool.eq_iff_iff, WalkEntry.isBelow_iff]
  exact Path.isUnder_joined_iff hsub he (fun s hs => (hsubs s hs).slash_free)
    fun s hs => (hes s hs).slash_free

/-- Something is below a directory if the directory it is in is that one or below it. -/
theorem isBelow_iff_dropLast {e : WalkEntry} (he : e.path ≠ []) :
    e.isBelow sub = true ↔ ∃ rest, e.path.dropLast = sub ++ rest := by
  rw [WalkEntry.isBelow_iff]
  constructor
  · rintro ⟨rest, hrest, hpath⟩
    exact ⟨rest.dropLast, by rw [hpath, List.dropLast_append_of_ne_nil hrest]⟩
  · rintro ⟨rest, hrest⟩
    refine ⟨rest ++ [e.path.getLast he], by simp, ?_⟩
    rw [← List.append_assoc, ← hrest, List.dropLast_append_getLast]

/-- All detections of a file are below a directory if the file is. -/
theorem isUnder_of_mem_detectionsIn (hdisk : disk.WellFormed) (hsub : sub ≠ [])
    (hsubs : ∀ s ∈ sub, Name.Proper s) {e : WalkEntry}
    (he : e ∈ Walk.entries disk ⟨true, place⟩ skip) {d : Detection}
    (hd : d ∈ detectionsIn disk ⟨true, place⟩ c e) :
    Path.isUnder (Path.joined sub) d.file = e.isBelow sub := by
  obtain ⟨hne, hproper⟩ := Walk.proper_of_mem_entries hdisk.named he
  have hfile : d.file = e.text := by
    rw [detectionsIn] at hd
    cases hfound : searchFile disk ⟨true, place⟩ c e with
    | error failures =>
      rw [hfound] at hd
      cases hd
    | ok ds =>
      rw [hfound] at hd
      cases foundIn_of_searchFile hfound with
      | unreadable _ => cases hd
      | readable _ hdetect =>
        obtain ⟨_, _, hof⟩ := Catalog.exists_rule_of_mem_detect hdetect hd
        exact hof.file
  rw [hfile]
  exact isUnder_text hsub hsubs hne fun s hs => (hproper s hs).toProper

/-- The workspace of a manifest is at a directory or below it if the manifest is below it. -/
theorem isAtOrUnder_of_mem_workspacesIn (hdisk : disk.WellFormed) (hsub : sub ≠ [])
    (hsubs : ∀ s ∈ sub, Name.Proper s) {e : WalkEntry}
    (he : e ∈ Walk.entries disk ⟨true, place⟩ skip) {w : Workspace}
    (hw : w ∈ workspacesIn disk ⟨true, place⟩ e) :
    Path.isAtOrUnder (Path.joined sub) w.root = e.isBelow sub := by
  obtain ⟨hne, hproper⟩ := Walk.proper_of_mem_entries hdisk.named he
  obtain ⟨m, hm, hmade⟩ := Option.bind_eq_some_iff.mp (Option.mem_toList.mp hw)
  cases hmake : Detector.workspaceOf disk ⟨true, place⟩ m.directory m.kind m.text with
  | error e =>
    rw [hmake] at hmade
    cases hmade
  | ok v =>
    rw [hmake] at hmade
    cases hmade
    rw [(describes_of_workspaceOf hdisk he hm hmake).directory, Bool.eq_iff_iff,
      isBelow_iff_dropLast hne]
    exact Path.isAtOrUnder_text_iff hsub hsubs fun s hs =>
      (hproper s (List.dropLast_subset _ hs)).toProper

/-- There are workspaces if a manifest can be read. -/
theorem workspaces_ne_nil_of_manifestFiles (hdisk : disk.WellFormed)
    {d : Detector × List (Option Workspace)}
    (h : Detector.initial.visitAll disk ⟨true, place⟩
      (filePlaces ⟨true, place⟩ (Walk.entries disk ⟨true, place⟩ skip)) = .ok d)
    (hfiles : manifestFiles disk ⟨true, place⟩ skip ≠ []) : d.1.workspaces ≠ [] := by
  intro hempty
  have hall := forall₂_describes hdisk (made_of_visitAll hdisk h)
  rw [hempty] at hall
  exact hfiles (List.forall₂_nil_right_iff.mp hall)

/-! ## A part of a walk -/

/-- A directory that a walk enters, and from which one can start as well. Directories are passed
over by their names alone. -/
structure Part (disk : Disk) (skip : NameSet) (place sub : List String) : Prop where
  wellFormed : disk.WellFormed
  slashless : Walk.Slashless skip
  nonempty : sub ≠ []
  proper : ∀ s ∈ sub, Name.Proper s
  entered : Walk.Entered disk skip ⟨true, place⟩ place sub
  whole : disk.directory? ⟨true, place⟩ = some place
  start : disk.directory? ⟨true, place ++ sub⟩ = some (place ++ sub)

namespace Part

theorem movedInto_mem (h : Part disk skip place sub) {e : WalkEntry}
    (he : e ∈ Walk.entries disk ⟨true, place ++ sub⟩ skip) :
    e.movedInto sub ∈ Walk.entries disk ⟨true, place⟩ skip := by
  have hmem := List.mem_map_of_mem (f := WalkEntry.movedInto sub) he
  rw [Walk.map_movedInto_entries h.wellFormed h.slashless h.entered h.whole h.start] at hmem
  exact List.mem_of_mem_filter hmem

/-- Of the files of one kind, those below the part are the ones that its own walk visits. -/
theorem map_movedInto_filter (h : Part disk skip place sub) {kind : WalkEntry → Bool}
    (hkind : ∀ e, e.path ≠ [] → kind (e.movedInto sub) = kind e) :
    ((Walk.entries disk ⟨true, place ++ sub⟩ skip).filter kind).map (WalkEntry.movedInto sub)
      = ((Walk.entries disk ⟨true, place⟩ skip).filter kind).filter (WalkEntry.isBelow sub) := by
  have hsame : (Walk.entries disk ⟨true, place ++ sub⟩ skip).filter kind
      = (Walk.entries disk ⟨true, place ++ sub⟩ skip).filter
        (kind ∘ WalkEntry.movedInto sub) := by
    refine List.filter_congr fun e he => ?_
    exact (hkind e (Walk.proper_of_mem_entries h.wellFormed.named he).1).symm
  rw [hsame, ← List.filter_map,
    Walk.map_movedInto_entries h.wellFormed h.slashless h.entered h.whole h.start,
    List.filter_filter, List.filter_filter]
  simp only [Bool.and_comm]

theorem detections (h : Part disk skip place sub) {ds ds' : List Detection}
    (hds : detectAll disk ⟨true, place⟩ c ((Walk.entries disk ⟨true, place⟩ skip).filter fun e =>
      !e.isDirectory && SourceFile.isSource e.name) = .ok ds)
    (hds' : detectAll disk ⟨true, place ++ sub⟩ c
      ((Walk.entries disk ⟨true, place ++ sub⟩ skip).filter fun e =>
        !e.isDirectory && SourceFile.isSource e.name) = .ok ds') :
    ds'.map (Detection.movedInto sub)
      = ds.filter fun d => Path.isUnder (Path.joined sub) d.file := by
  rw [eq_flatMap_of_detectAll hds, eq_flatMap_of_detectAll hds']
  refine flatMap_movedInto (h.map_movedInto_filter ?_) ?_ ?_
  · intro e he
    rw [name_movedInto he]
    rfl
  · intro e he d hd
    have hmem := List.mem_of_mem_filter he
    exact isUnder_of_mem_detectionsIn h.wellFormed h.nonempty h.proper hmem hd
  · intro e he
    have hmem := List.mem_of_mem_filter he
    exact detectionsIn_movedInto h.wellFormed h.nonempty hmem (h.movedInto_mem hmem)

/-- Where a manifest can be read below the part, the workspaces of both are those of the
manifests. -/
theorem workspaces (h : Part disk skip place sub) {d d' : Detector × List (Option Workspace)}
    (hd : Detector.initial.visitAll disk ⟨true, place⟩
      (filePlaces ⟨true, place⟩ (Walk.entries disk ⟨true, place⟩ skip)) = .ok d)
    (hd' : Detector.initial.visitAll disk ⟨true, place ++ sub⟩
      (filePlaces ⟨true, place ++ sub⟩ (Walk.entries disk ⟨true, place ++ sub⟩ skip)) = .ok d')
    (hfiles : manifestFiles disk ⟨true, place ++ sub⟩ skip ≠ []) :
    d'.1.result.map (Workspace.movedInto sub)
      = d.1.result.filter fun w => Path.isAtOrUnder (Path.joined sub) w.root := by
  have hall : d'.1.workspaces.map (Workspace.movedInto sub)
      = d.1.workspaces.filter fun w => Path.isAtOrUnder (Path.joined sub) w.root := by
    rw [eq_flatMap_of_visitAll h.wellFormed hd, eq_flatMap_of_visitAll h.wellFormed hd']
    refine flatMap_movedInto (h.map_movedInto_filter fun e _ => rfl) ?_ ?_
    · intro e he w hw
      have hmem := List.mem_of_mem_filter he
      exact isAtOrUnder_of_mem_workspacesIn h.wellFormed h.nonempty h.proper hmem hw
    · intro e he
      exact workspacesIn_movedInto h.wellFormed h.nonempty (List.mem_of_mem_filter he)
  have hne' : d'.1.workspaces ≠ [] := workspaces_ne_nil_of_manifestFiles h.wellFormed hd' hfiles
  have hne : d.1.workspaces ≠ [] := by
    intro hempty
    rw [hempty] at hall
    exact hne' (List.map_eq_nil_iff.mp hall)
  rw [Detector.result_eq_workspaces hne, Detector.result_eq_workspaces hne', hall]

end Part

/-! ## All together -/

/-- If a survey of a directory below a repository gives a result, then it is of that directory. -/
theorem ofDirectory_of_run_join (hdisk : disk.WellFormed) {path : Path} {s : SurveyResult}
    (hplace : disk.destination path = .ok (.directory place))
    (hsub : disk.IsDirectory (place ++ sub))
    (hs : run disk (path.join (.relative sub)) c = .ok s) :
    disk.Reaches (place ++ sub) ∧ ofDirectory disk ⟨true, place ++ sub⟩ c = .ok s := by
  have hresolve := Disk.resolve_join hdisk hplace hsub
  have hfound : disk.destination (path.join (.relative sub))
      = .ok (disk.lookup ⟨true, place ++ sub⟩) := by
    rw [Disk.destination, hresolve]
    rfl
  rcases Disk.lookup_place hdisk hsub with hreaches | hlong | hdenied
  · rw [hreaches] at hfound
    rw [run_of_directory hfound] at hs
    exact ⟨hreaches, hs⟩
  · rw [hlong] at hfound
    rw [run_of_not_directory hfound (by simp)] at hs
    cases hs
  · rw [hdenied] at hfound
    rw [run_of_not_directory hfound (by simp)] at hs
    cases hs

/-- The survey of a directory that the walk visits finds the same there as that of the whole, if
there are no ignore files and directories are passed over by their names alone: the detections are
those of files under it, and, if there is a manifest to read, the workspaces are those at it or
under it, in the same order and by their paths from there. -/
theorem run_subdirectory (sub : List String) (hdisk : disk.WellFormed) {path : Path}
    {r s : SurveyResult}
    (hplace : disk.destination path = .ok (.directory place))
    (hload : Skip.load disk ⟨true, place⟩ c.skipDirs = .ok skip)
    (hsub : ⟨sub, true⟩ ∈ Walk.entries disk ⟨true, place⟩ skip)
    (hnone : disk.tree.at? (place ++ [Skip.ignoreFile]) = none)
    (hnone' : disk.tree.at? (place ++ sub ++ [Skip.ignoreFile]) = none)
    (hslashless : Walk.Slashless c.skipDirs) (hr : run disk path c = .ok r)
    (hs : run disk (path.join (.relative sub)) c = .ok s) :
    s.detections.map (Detection.movedInto sub)
        = r.detections.filter (fun d => Path.isUnder (Path.joined sub) d.file)
      ∧ (manifestFiles disk ⟨true, place ++ sub⟩ skip ≠ [] →
        s.workspaces.map (Workspace.movedInto sub)
          = r.workspaces.filter fun w => Path.isAtOrUnder (Path.joined sub) w.root) := by
  obtain ⟨_, hreaches⟩ := Disk.resolve_of_destination hdisk hplace
  have hdirectory := hreaches.isDirectory hdisk
  have hwhole := Disk.directory?_eq_some.mpr hreaches
  rw [run_of_directory hplace] at hr
  obtain ⟨hne, hentered⟩ := Walk.listed_directory_iff.mp
    ((Walk.mem_entries_iff_listed hdisk hwhole skip _).mp hsub)
  obtain ⟨hreaches', hs⟩ := ofDirectory_of_run_join hdisk hplace hentered.stands hs
  have hstart := Disk.directory?_eq_some.mpr hreaches'
  obtain ⟨_, detector, _, _, hload₁, hvisit, hdetect, hworkspaces, _⟩ := ofDirectory_eq_ok hr
  obtain ⟨skip', detector', _, _, hload', hvisit', hdetect', hworkspaces', _⟩ :=
    ofDirectory_eq_ok hs
  rw [hload] at hload₁
  cases hload₁
  -- both walks pass over the same
  have hskip := Skip.eq_of_load hdisk hdirectory hnone hload
  have hsame : skip' = skip := by
    rw [hskip, Skip.eq_of_load hdisk hentered.stands hnone' hload']
  rw [hsame] at hvisit' hdetect'
  have hpart : Part disk skip place sub := by
    refine ⟨hdisk, fun name hname => ?_, hne, fun s hs => ?_, hentered, hwhole, hstart⟩
    · rw [hskip] at hname
      rcases NameSet.mem_union.mp hname with hname | hname
      · exact hslashless name hname
      · cases hname
    · exact ((Walk.proper_of_mem_entries hdisk.named hsub).2 s hs).toProper
  refine ⟨hpart.detections hdetect hdetect', fun hmanifests => ?_⟩
  rw [hworkspaces, hworkspaces']
  exact hpart.workspaces hvisit hvisit' hmanifests

/-- A repository with a directory in which there are a manifest, another one further down, and a
directory that is passed over. -/
def nestedDisk : Disk where
  tree := .directory [("r", .directory [
    ("a.ts", .file (Utf8.encode "d.toLocaleDateString()".toList)),
    ("lib", .directory [
      ("dist", .directory [("x.ts", .file (Utf8.encode "d.toLocaleDateString()".toList))]),
      ("go.mod", .file (Utf8.encode "module m".toList)),
      ("sub", .directory [
        ("b.ts", .file (Utf8.encode "d.toLocaleDateString()".toList)),
        ("package.json", .file (Utf8.encode "\x7b\x7d".toList))])]),
    ("library.ts", .file (Utf8.encode "d.toLocaleDateString()".toList)),
    ("package.json", .file (Utf8.encode "\x7b\x7d".toList))])]

theorem run_subdirectory_nested : nestedDisk.WellFormed
    ∧ ∃ r s, run nestedDisk ⟨true, ["r"]⟩ {} = .ok r
      ∧ run nestedDisk ⟨true, ["r", "lib"]⟩ {} = .ok s
      ∧ r.detections.map (·.file) = ["a.ts", "lib/sub/b.ts", "library.ts"]
      ∧ s.detections.map (·.file) = ["sub/b.ts"]
      ∧ s.detections.map (Detection.movedInto ["lib"])
        = r.detections.filter (fun d => Path.isUnder "lib" d.file)
      ∧ s.workspaces.map (·.root) = [".", "sub"]
      ∧ s.workspaces.map (Workspace.movedInto ["lib"])
        = r.workspaces.filter fun w => Path.isAtOrUnder "lib" w.root := by
  have hdisk : nestedDisk.WellFormed := by decide +kernel
  have hfound : (run nestedDisk ⟨true, ["r"]⟩ {}).toOption.map (fun r => r.detections.map (·.file))
      = some ["a.ts", "lib/sub/b.ts", "library.ts"] := by decide +kernel
  have hfound' : (run nestedDisk ⟨true, ["r", "lib"]⟩ {}).toOption.map (fun s =>
      (s.detections.map (·.file), s.workspaces.map (·.root)))
        = some (["sub/b.ts"], [".", "sub"]) := by
    decide +kernel
  obtain ⟨r, hr, hfiles⟩ := exists_ok_of_map_toOption hfound
  obtain ⟨s, hs, hparts⟩ := exists_ok_of_map_toOption hfound'
  obtain ⟨hfiles', hroots⟩ := Prod.mk.inj hparts
  have hload : Skip.load nestedDisk ⟨true, ["r"]⟩ [] = .ok [] := by decide +kernel
  obtain ⟨hdetections, hworkspaces⟩ := run_subdirectory ["lib"] hdisk
    (by decide +kernel) hload (by decide +kernel) (by decide +kernel) (by decide +kernel)
    (by decide) hr hs
  exact ⟨hdisk, r, s, hr, hs, hfiles, hfiles', hdetections, hroots, hworkspaces (by decide +kernel)⟩

end Survey

end RepoSurvey
