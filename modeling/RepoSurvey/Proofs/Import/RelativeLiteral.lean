import Mathlib.Logic.Relation
import RepoSurvey.Proofs.Import.Agreement
import RepoSurvey.Proofs.Path.Relative

/-!
# Relative imports

The way from the directory of a file to a script, written as a literal, is resolved to the script,
also where it is written with more than it needs. What is resolved is always a script.

* `Import.relativeLiteral`: the shortest literal for a file;
* `Import.Padded`: a literal with a dot, a slash or a detour more;
* `Import.Padded.targetOf_eq`: padding does not change what a literal is a path to;
* `Import.Script`: a file with the suffix of a script, told by its path from the root;
* `Import.targetOf_relativeLiteral`, `Import.script_of_resolve`, `Import.resolve_relative`.
-/

namespace RepoSurvey.Import

/-- The literal for a file that is seen from another one: two dots for each directory that is left,
and then the names to go down by. -/
def relativeLiteral (importer target : Path) : String :=
  let way := Path.way importer.parent.segments target.segments
  Path.wayText way.1 way.2

/-- What may stand between two slashes without changing where a path leads: nothing, a single dot,
or a detour through a directory. -/
inductive Padding : String → Prop
  | nothing : Padding ""
  | dot : Padding "."
  | detour {d : String} (h : Name.Proper d) : Padding (d ++ "/" ++ "..")

/-- A literal, and the same with some padding behind one of its slashes. -/
inductive Padded : String → String → Prop
  | behind (front back : String) {padding : String} (h : Padding padding) :
      Padded (front ++ "/" ++ back) (front ++ "/" ++ (padding ++ "/" ++ back))

/-- A file with the suffix of a script, told by an absolute path of proper names. -/
structure Script (disk : Disk) (p : Path) : Prop where
  absolute : p.absolute = true
  proper : ∀ s ∈ p.segments, Name.Proper s
  isFile : disk.isFile p = .ok true
  isScript : SourceFile.isScript p.name = true

variable {disk : Disk} {importer : Path}

/-! ## What a literal is a path to -/

/-- What a literal is a path to is told by its segments, behind those of the importing file. -/
theorem targetOf_congr {a b : String} (habsolute : (Path.ofText a).absolute
      = (Path.ofText b).absolute)
    (hsegments : ∀ absolute front,
      Path.normalize ⟨absolute, front ++ (Path.ofText a).segments⟩
        = Path.normalize ⟨absolute, front ++ (Path.ofText b).segments⟩) :
    targetOf importer a = targetOf importer b := by
  rw [targetOf, targetOf, Path.join, Path.join, ← habsolute]
  split
  · have hsame := hsegments (Path.ofText a).absolute []
    rw [List.nil_append, List.nil_append] at hsame
    rw [hsame, habsolute]
  · exact hsegments _ _

theorem Padding.normalize_eq {padding : String} (h : Padding padding) (absolute : Bool)
    (front back : List String) :
    Path.normalize ⟨absolute, front ++ (Path.ofText padding).segments ++ back⟩
      = Path.normalize ⟨absolute, front ++ back⟩ := by
  cases h with
  | nothing => rw [Path.segments_ofText_empty, List.append_nil]
  | dot => rw [Path.segments_ofText_dot, List.append_nil]
  | detour hd =>
    rw [Path.segments_ofText_slash, Path.segments_ofText_name hd, Path.segments_ofText_dots]
    exact Path.normalize_detour hd.ne_dots front back

/-- Padding does not change what a literal is a path to. -/
theorem Padded.targetOf_eq {a b : String} (h : Padded a b) :
    targetOf importer a = targetOf importer b := by
  obtain ⟨front, back, hpadding⟩ := h
  refine targetOf_congr (Path.absolute_ofText_slash front back _) fun absolute before => ?_
  rw [Path.segments_ofText_slash, Path.segments_ofText_slash, Path.segments_ofText_slash,
    ← List.append_assoc, ← List.append_assoc, ← List.append_assoc, hpadding.normalize_eq]

theorem targetOf_eq_of_padded {a b : String} (h : Relation.ReflTransGen Padded a b) :
    targetOf importer a = targetOf importer b := by
  induction h with
  | refl => rfl
  | tail _ hlast ih => exact ih.trans hlast.targetOf_eq

/-! ## The literal for a file -/

/-- The shortest literal for a file is a path to the file. -/
theorem targetOf_relativeLiteral {target : Path} (himporter : importer.absolute = true)
    (himporters : ∀ s ∈ importer.segments, Name.Proper s) (htarget : target.absolute = true)
    (htargets : ∀ s ∈ target.segments, Name.Proper s) :
    targetOf importer (relativeLiteral importer target) = target := by
  have hdirectory : ∀ s ∈ importer.parent.segments, s ≠ ".." := fun s hs =>
    (himporters s (List.dropLast_subset _ hs)).ne_dots
  obtain ⟨shared, left, _, _, hplace⟩ :=
    Path.exists_way importer.parent.segments target.segments
  have hdown : ∀ s ∈ (Path.way importer.parent.segments target.segments).2, Name.Proper s :=
    fun s hs => htargets s (hplace ▸ List.mem_append_right shared hs)
  rw [targetOf, relativeLiteral, Path.ofText_wayText _ hdown]
  show Path.normalize ⟨importer.absolute, importer.parent.segments ++ _⟩ = target
  rw [himporter, ← htarget]
  exact Path.normalize_way hdirectory fun s hs => (htargets s hs).ne_dots

/-! ## What is resolved -/

theorem isFile_of_firstThat {isFile : Path → Except SurveyError Bool} {paths : List Path}
    {p : Path} (h : firstThat isFile paths = .ok (some p)) : isFile p = .ok true := by
  induction paths with
  | nil => cases h
  | cons q rest ih =>
    obtain ⟨answer, hanswer, h⟩ := bind_eq_ok_iff.mp h
    cases answer with
    | true =>
      cases h
      exact hanswer
    | false => exact ih h

/-- No path to a file has a null character in it. -/
theorem nul_free_of_isFile {p : Path} (h : disk.isFile p = .ok true) :
    ∀ s ∈ p.segments, '\x00' ∉ s.toList := by
  intro s hs hnul
  have hany : p.hasNull = true :=
    List.any_eq_true.mpr ⟨s, hs, List.contains_iff_mem.mpr hnul⟩
  obtain ⟨bytes, hfile⟩ := Disk.isFile_eq_true.mp h
  rw [Disk.lookup, if_pos hany] at hfile
  cases hfile

theorem absolute_join (himporter : importer.absolute = true) (literal : String) :
    (importer.parent.join (Path.ofText literal)).absolute = true := by
  rw [Path.join]
  split
  · assumption
  · exact himporter

/-- Each name on the way to what a literal is a path to is proper, but for null characters. -/
theorem proper_of_mem_targetOf (himporter : importer.absolute = true)
    (himporters : ∀ s ∈ importer.segments, Name.Proper s) {literal s : String}
    (hs : s ∈ (targetOf importer literal).segments) (hnul : '\x00' ∉ s.toList) :
    Name.Proper s := by
  obtain ⟨hmem, hdots⟩ := Path.mem_of_mem_normalize (absolute_join himporter literal) hs
  have hread : s ∈ (Path.ofText literal).segments → Name.Proper s := by
    intro hliteral
    obtain ⟨hempty, hdot⟩ := Path.of_mem_ofText hliteral
    refine ⟨hempty, hdot, hdots, fun hslash => ?_, hnul⟩
    obtain ⟨piece, hpiece, rfl⟩ := List.mem_map.mp (List.mem_filter.mp hliteral).1
    rw [String.toList_ofList] at hslash
    simpa using Text.not_of_mem_splitAtEvery hpiece '/' hslash
  rw [Path.join] at hmem
  split at hmem
  · exact hread hmem
  · rcases List.mem_append.mp hmem with hbefore | hliteral
    · exact himporters s (List.dropLast_subset _ hbefore)
    · exact hread hliteral

/-- A name with the suffix of a script added to it. -/
theorem withSuffix_script {name suffix : String} (hname : Name.Proper name)
    (hsuffix : suffix ∈ suffixes) :
    Name.Proper (name ++ suffix) ∧ SourceFile.isScript (name ++ suffix) = true := by
  have hall : ∀ e ∈ suffixes, (2 < e.length ∧ '/' ∉ e.toList ∧ '\x00' ∉ e.toList)
      ∧ ∃ letters, letters ≠ "" ∧ '.' ∉ letters.toList ∧ e = "." ++ letters
        ∧ e ∈ SourceFile.scriptSuffixes := by
    intro e he
    refine ⟨by revert e; decide, String.ofList e.toList.tail, ?_⟩
    revert e
    decide +kernel
  obtain ⟨⟨hlong, hslash, hnul⟩, letters, hletters, hdots, heq, hscript⟩ := hall suffix hsuffix
  have hlength : (name ++ suffix).length = name.length + suffix.length := String.length_append _ _
  have hne : ∀ short : String, short.length ≤ 2 → name ++ suffix ≠ short := by
    rintro short hshort rfl
    omega
  refine ⟨⟨hne "" (by decide), hne "." (by decide), hne ".." (by decide), ?_, ?_⟩, ?_⟩
  · rw [String.toList_append, List.mem_append]
    exact not_or.mpr ⟨hname.slash_free, hslash⟩
  · rw [String.toList_append, List.mem_append]
    exact not_or.mpr ⟨hname.nul_free, hnul⟩
  · rw [SourceFile.isScript, heq, Name.suffix_append hname.ne_empty hletters hdots, ← heq]
    exact List.contains_iff_mem.mpr hscript

/-- A candidate has a suffix added to a name on the way to the target, or to that of an index. -/
theorem exists_of_mem_candidates {target p : Path} (hsegments : target.segments ≠ [])
    (h : p ∈ candidates target) :
    ∃ front name suffix, (∀ s ∈ front, s ∈ target.segments)
      ∧ (name ∈ target.segments ∨ name = "index") ∧ suffix ∈ suffixes
      ∧ p = ⟨target.absolute, front ++ [name ++ suffix]⟩ := by
  rcases List.mem_append.mp h with hbeside | hinside
  · obtain ⟨suffix, hsuffix, rfl⟩ := List.mem_map.mp hbeside
    refine ⟨target.segments.dropLast, target.name, suffix,
      fun s hs => List.dropLast_subset _ hs, Or.inl ?_, hsuffix, rfl⟩
    rw [Path.name, List.getLast?_eq_some_getLast hsegments, Option.getD_some]
    exact List.getLast_mem hsegments
  · obtain ⟨suffix, hsuffix, rfl⟩ := List.mem_map.mp hinside
    exact ⟨target.segments, "index", suffix, fun s hs => hs, Or.inr rfl, hsuffix, rfl⟩

theorem script_of_mem_candidates {target p : Path} (habsolute : target.absolute = true)
    (hproper : ∀ s ∈ target.segments, '\x00' ∉ s.toList → Name.Proper s)
    (hsegments : target.segments ≠ []) (hp : p ∈ candidates target)
    (hfile : disk.isFile p = .ok true) : Script disk p := by
  have hnul := nul_free_of_isFile hfile
  obtain ⟨front, name, suffix, hfront, hname, hsuffix, rfl⟩ :=
    exists_of_mem_candidates hsegments hp
  obtain ⟨hnuls, hlast⟩ := List.forall_mem_append.mp hnul
  have hnamed : Name.Proper name := by
    rcases hname with hmem | rfl
    · refine hproper name hmem fun hmem => hlast _ List.mem_cons_self ?_
      rw [String.toList_append]
      exact List.mem_append_left _ hmem
    · decide
  obtain ⟨hadded, hscript⟩ := withSuffix_script hnamed hsuffix
  refine ⟨habsolute, ?_, hfile, ?_⟩
  · refine List.forall_mem_append.mpr ⟨fun s hs => hproper s (hfront s hs) (hnuls s hs), ?_⟩
    exact List.forall_mem_singleton.mpr hadded
  · rw [Path.name, List.getLast?_concat]
    exact hscript

/-- What is resolved is a script. -/
theorem script_of_resolve (himporter : importer.absolute = true)
    (himporters : ∀ s ∈ importer.segments, Name.Proper s) {literal : String} {p : Path}
    (h : resolve disk importer literal = .ok (some p)) : Script disk p := by
  have habsolute : (targetOf importer literal).absolute = true :=
    absolute_join himporter literal
  have hproper : ∀ s ∈ (targetOf importer literal).segments, '\x00' ∉ s.toList → Name.Proper s :=
    fun s => proper_of_mem_targetOf himporter himporters
  unfold resolve at h
  dsimp only at h
  split at h
  · rename_i hscript
    have hfile := isFile_of_firstThat h
    cases List.mem_singleton.mp (mem_of_firstThat h)
    exact ⟨habsolute, fun s hs => hproper s hs (nul_free_of_isFile hfile s hs), hfile, hscript⟩
  · split at h
    · cases h
    · rename_i hsegments
      exact script_of_mem_candidates habsolute hproper (by simpa using hsegments)
        (mem_of_firstThat h) (isFile_of_firstThat h)

/-- A script is found again by its shortest literal, be it padded, from any file; and whatever
literal there is in a file, only a script is resolved. -/
theorem resolve_relative (disk : Disk) (importer : Path) (himporter : importer.absolute = true)
    (himporters : ∀ s ∈ importer.segments, Name.Proper s) :
    (∀ target literal, Script disk target →
        Relation.ReflTransGen Padded (relativeLiteral importer target) literal →
        resolve disk importer literal = .ok (some target))
      ∧ ∀ literal p, resolve disk importer literal = .ok (some p) → Script disk p := by
  refine ⟨fun target literal htarget hpadded => ?_, fun literal p h => ?_⟩
  · have hsame : targetOf importer literal = target := by
      rw [← targetOf_eq_of_padded hpadded]
      exact targetOf_relativeLiteral himporter himporters htarget.absolute htarget.proper
    rw [resolve, hsame, if_pos htarget.isScript, firstThat, htarget.isFile]
    rfl
  · exact script_of_resolve himporter himporters h

/-- Three scripts in two directories. -/
def librarySources : Disk where
  tree := .directory [("src", .directory [
    ("app", .directory [("main.ts", .file []), ("view.tsx", .file [])]),
    ("lib", .directory [("util.js", .file [])])])]

theorem resolve_relative_util :
    Relation.ReflTransGen Padded "../lib/util.js" "..//old/.././lib/util.js"
      ∧ resolve librarySources ⟨true, ["src", "app", "main.ts"]⟩ "..//old/.././lib/util.js"
        = .ok (some ⟨true, ["src", "lib", "util.js"]⟩)
      ∧ Script librarySources ⟨true, ["src", "lib", "util.js"]⟩ := by
  have hpadded : Relation.ReflTransGen Padded "../lib/util.js" "..//old/.././lib/util.js" := by
    have hdot : Padded "../lib/util.js" ".././lib/util.js" := .behind ".." "lib/util.js" .dot
    have hdetour : Padded ".././lib/util.js" "../old/.././lib/util.js" :=
      .behind ".." "./lib/util.js"
        (.detour (d := "old") (by decide))
    have hslash : Padded "../old/.././lib/util.js" "..//old/.././lib/util.js" :=
      .behind ".." "old/.././lib/util.js" .nothing
    exact ((Relation.ReflTransGen.single hdot).tail hdetour).tail hslash
  have himporters : ∀ s ∈ ["src", "app", "main.ts"], Name.Proper s := by decide
  have hscript : Script librarySources ⟨true, ["src", "lib", "util.js"]⟩ :=
    ⟨rfl, by decide, by decide +kernel, by decide +kernel⟩
  obtain ⟨hfound, hall⟩ := resolve_relative librarySources ⟨true, ["src", "app", "main.ts"]⟩ rfl
    himporters
  have hresolved := hfound _ _ hscript hpadded
  exact ⟨hpadded, hresolved, hall _ _ hresolved⟩

end RepoSurvey.Import
