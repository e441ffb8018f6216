import RepoSurvey.Proofs.Catalog.Detect
import RepoSurvey.Proofs.Path.Segments
import RepoSurvey.Proofs.Validation.ReadingBack

/-!
# What is found in a text

Of every pattern of every rule for a file the first line that matches is reported. This is shown of
a search that takes any predicates on lines for the patterns, and not only what their shapes match.

* `Catalog.detectBy`: such a search; `Catalog.detect_eq_detectBy`: the search of a file is one;
* `Catalog.matched`: the patterns that match a line, beside their rules;
* `Catalog.FirstLine`, `Catalog.Reports`: the first line of a pattern, and the detection around it;
* `Catalog.detectBy_exact`: a text that is not too long has one detection for each of them;
* `Catalog.exists_detectBy_ok_iff`, `Rule.Proper`: what makes a detection valid.
-/

namespace RepoSurvey

/-- A rule as it is meant to be: it has an id and a confidence between zero and one, and each of its
file shapes names something. A catalog is checked for this in part only: its confidences are looked
at, its ids need only differ, and nothing is asked of what a file shape names. -/
structure Rule.Proper (r : Rule) : Prop extends r.Reportable where
  named : ∀ g ∈ r.files, g.core ≠ []

/-- A proper rule applies to no file without a name. -/
theorem Rule.Proper.file_ne_empty {r : Rule} (hr : r.Proper) {file : String}
    (h : r.appliesTo (Path.ofText file) = true) : file.isEmpty = false := by
  obtain ⟨g, hg, hholds⟩ := List.any_eq_true.mp h
  rw [← Bool.not_eq_true]
  intro hempty
  have hpath : Path.ofText file = ⟨false, []⟩ := by
    rw [String.isEmpty_iff.mp hempty]
    decide
  rw [hpath] at hholds
  unfold FileGlob.holds at hholds
  split at hholds
  · have hsuffix := congrArg String.toList (beq_iff_eq.mp hholds)
    simp [Path.name, Name.suffix, Name.splitSuffix] at hsuffix
  · have hname := congrArg String.toList (beq_iff_eq.mp hholds)
    simp only [Path.name, List.getLast?_nil, Option.getD_none, String.toList_ofList] at hname
    exact hr.named g hg hname.symm

/-- Within a file the lines around a line reach no further than the file. -/
theorem LineRange.around_valid {k n radius : Int} (hk : 1 ≤ k) (hn : k ≤ n) (hradius : 0 ≤ radius) :
    ∃ range, around k n radius = .valid range ∧ range.start = max 1 (k - radius)
      ∧ range.stop = min n (k + radius) := by
  have hstart : 1 ≤ max 1 (k - radius) := by omega
  have hordered : max 1 (k - radius) ≤ min (max n k) (k + radius) := by omega
  refine ⟨_, make?_valid hstart hordered, rfl, ?_⟩
  show min (max n k) (k + radius) = min n (k + radius)
  omega

theorem isEmpty_eq_false_iff {s : String} : s.isEmpty = false ↔ s ≠ "" := by
  rw [← Bool.not_eq_true, String.isEmpty_iff]

/-- A detection of a rule is accepted exactly in a file with a name and of a rule that is
reportable. -/
theorem Detection.make?_eq_ok_iff {file : String} {range : LineRange} {r : Rule} {d : Detection} :
    (make? file range r.id r.confidence r.domain).toExcept = .ok d
      ↔ file ≠ "" ∧ r.Reportable ∧ d = ⟨file, range, r.id, r.confidence.toBinary64, r.domain⟩ := by
  constructor
  · intro h
    obtain ⟨_, domain, hfour, hdomain, rfl⟩ :=
      Checked.seq_eq_valid_iff.mp (Checked.toExcept_eq_ok_iff.mp h)
    obtain ⟨_, confidence, hthree, hconfidence, rfl⟩ := Checked.seq_eq_valid_iff.mp hfour
    obtain ⟨_, id, htwo, hid, rfl⟩ := Checked.seq_eq_valid_iff.mp hthree
    obtain ⟨_, lines, hone, hlines, rfl⟩ := Checked.seq_eq_valid_iff.mp htwo
    obtain ⟨name, hname, rfl⟩ := Checked.map_eq_valid_iff.mp hone
    obtain ⟨rfl, hfile⟩ :=
      Checked.nonEmptyText_eq_valid_iff.mp (Checked.under_eq_valid_iff.mp hname)
    obtain ⟨rfl, hne⟩ := Checked.nonEmptyText_eq_valid_iff.mp (Checked.under_eq_valid_iff.mp hid)
    have hreal := Checked.under_eq_valid_iff.mp hconfidence
    obtain rfl := Checked.eq_of_unitReal hreal
    cases hlines
    cases hdomain
    have hunit := Checked.inUnitInterval_of_unitReal hreal
    exact ⟨hfile, ⟨isEmpty_eq_false_iff.mpr hne, hunit⟩, rfl⟩
  · rintro ⟨hfile, hr, rfl⟩
    rw [make?, Checked.nonEmptyText_valid (isEmpty_eq_false_iff.mpr hfile),
      Checked.nonEmptyText_valid hr.id, Checked.unitReal_valid hr.confidence]
    rfl

namespace Catalog

variable {occurs : Pattern → List Char → Bool} {found : List Char → Bool} {rules : List Rule}
  {file : String} {text : List Char} {lines : List (List Char)} {radius limit : Int} {r : Rule}

/-! ## Searching with any predicates -/

/-- What the search for the lines with `found` gives: a detection of the rule around the first of
them, if there is one. -/
def search (file : String) (lines : List (List Char)) (radius : Int) (r : Rule)
    (found : List Char → Bool) : Except (List Failure) (List Detection) :=
  match (lines.findIdx? found).map Nat.succ with
  | none => .ok []
  | some line => do
    let range ← (LineRange.around line lines.length radius).toExcept
    let detection ← (Detection.make? file range r.id r.confidence r.domain).toExcept
    return [detection]

/-- The detections of a text, where `occurs p` are the lines in which `p` is found. -/
def detectBy (occurs : Pattern → List Char → Bool) (rules : List Rule) (file : String)
    (text : List Char) (radius limit : Int) : Except (List Failure) (List Detection) :=
  if text.length > limit then .ok []
  else do
    let found ← (applicable rules (Path.ofText file)).mapM fun r => do
      let found ← r.code.mapM fun p => search file (Text.lines text) radius r (occurs p)
      return found.flatten
    return found.flatten

theorem detect_eq_detectBy : detect = detectBy Pattern.occursIn := rfl

/-- The patterns to search a file for, each beside its rule. -/
def searches (rules : List Rule) (file : String) : List (Rule × Pattern) :=
  (applicable rules (Path.ofText file)).flatMap fun r => r.code.map fun p => (r, p)

/-- Those of them that match a line. -/
def matched (occurs : Pattern → List Char → Bool) (rules : List Rule) (file : String)
    (lines : List (List Char)) : List (Rule × Pattern) :=
  (searches rules file).filter fun s => lines.any (occurs s.2)

theorem detectBy_eq (h : text.length ≤ limit) : detectBy occurs rules file text radius limit
    = ((searches rules file).mapM fun s =>
        search file (text.splitOn '\n') radius s.1 (occurs s.2)).map List.flatten := by
  have hshort : ¬ text.length > limit := by omega
  have hlists := flatten_mapM_lists
    (fun s : Rule × Pattern => search file (text.splitOn '\n') radius s.1 (occurs s.2))
    ((applicable rules (Path.ofText file)).map fun r => r.code.map fun p => (r, p))
  have hsearches : ((applicable rules (Path.ofText file)).map fun r =>
      r.code.map fun p => (r, p)).flatten = searches rules file := List.flatMap_def.symm
  rw [hsearches, List.mapM_map] at hlists
  rw [detectBy, if_neg hshort, ← hlists, Text.lines_eq_splitOn]
  have hrule : (fun r : Rule => do
        let found ← r.code.mapM fun p => search file (text.splitOn '\n') radius r (occurs p)
        return found.flatten)
      = ((fun xs : List (Rule × Pattern) => (xs.mapM fun s =>
          search file (text.splitOn '\n') radius s.1 (occurs s.2)).map List.flatten) ∘
        fun r : Rule => r.code.map fun p => (r, p)) := by
    funext r
    rw [Function.comp_apply, List.mapM_map]
    rfl
  rw [hrule]
  rfl

/-! ## One search -/

/-- Counted from one, `k` is the first of the lines with `found`. -/
structure FirstLine (found : List Char → Bool) (lines : List (List Char)) (k : Nat) : Prop where
  positive : 1 ≤ k
  holds : ∃ line, lines[k - 1]? = some line ∧ found line = true
  least : ∀ i, 1 ≤ i → i < k → ∀ line, lines[i - 1]? = some line → found line = false

theorem FirstLine.le_length {k : Nat} (h : FirstLine found lines k) : k ≤ lines.length := by
  obtain ⟨line, hline, _⟩ := h.holds
  obtain ⟨hbound, _⟩ := List.getElem?_eq_some_iff.mp hline
  omega

theorem firstLine_of_findIdx? {i : Nat} (h : lines.findIdx? found = some i) :
    FirstLine found lines (i + 1) := by
  obtain ⟨hbound, hholds, hbefore⟩ := List.findIdx?_eq_some_iff_getElem.mp h
  refine ⟨by omega, ⟨lines[i], by simp, hholds⟩, ?_⟩
  intro j hj hlt line hline
  obtain ⟨hj', hget⟩ := List.getElem?_eq_some_iff.mp hline
  have hno := hbefore (j - 1) (by omega)
  rw [← hget]
  simpa using hno

/-- A detection of the rule around the first of the lines with `found`. -/
structure Reports (file : String) (lines : List (List Char)) (radius : Int) (r : Rule)
    (found : List Char → Bool) (d : Detection) : Prop extends d.Of file r where
  around : ∃ k : Nat, FirstLine found lines k
    ∧ d.lines.start = max 1 (k - radius) ∧ d.lines.stop = min (lines.length : Int) (k + radius)
    ∧ 1 ≤ d.lines.start ∧ d.lines.start ≤ k ∧ k ≤ d.lines.stop ∧ d.lines.stop ≤ lines.length
    ∧ (radius = 0 → d.lines.start = k ∧ d.lines.stop = k)

theorem search_of_none (h : lines.any found = false) :
    search file lines radius r found = .ok [] := by
  have hnone : lines.findIdx? found = none := by
    rw [List.findIdx?_eq_none_iff]
    simpa using h
  rw [search, hnone, Option.map_none]

/-- Where a line is found the search gives one detection, and the range of its lines is always
valid: it fails only for a file without a name or a rule that is not reportable. -/
theorem search_of_some (hradius : 0 ≤ radius) (h : lines.any found = true) :
    (∀ ds, search file lines radius r found = .ok ds
      → ∃ d, ds = [d] ∧ Reports file lines radius r found d)
    ∧ ((∃ ds, search file lines radius r found = .ok ds) ↔ file ≠ "" ∧ r.Reportable) := by
  have hsome : (lines.findIdx? found).isSome = true := by rwa [List.findIdx?_isSome]
  obtain ⟨i, hi⟩ := Option.isSome_iff_exists.mp hsome
  have hfirst := firstLine_of_findIdx? hi
  have hlength := hfirst.le_length
  obtain ⟨range, hrange, hstart, hstop⟩ := LineRange.around_valid
    (k := ((i + 1 : Nat) : Int)) (n := lines.length) (by omega) (by omega) hradius
  have hsearch : search file lines radius r found
      = (Detection.make? file range r.id r.confidence r.domain).toExcept.map fun d => [d] := by
    rw [search, hi, Option.map_some]
    dsimp only
    rw [hrange]
    show (Detection.make? file range r.id r.confidence r.domain).toExcept.bind _ = _
    cases (Detection.make? file range r.id r.confidence r.domain).toExcept <;> rfl
  rw [hsearch]
  constructor
  · intro ds hds
    obtain ⟨d, hd, rfl⟩ := map_eq_ok_iff.mp hds
    obtain ⟨_, _, rfl⟩ := Detection.make?_eq_ok_iff.mp hd
    refine ⟨_, rfl, ⟨rfl, rfl, rfl, rfl⟩, i + 1, hfirst, hstart, hstop, ?_⟩
    dsimp only
    omega
  · constructor
    · rintro ⟨ds, hds⟩
      obtain ⟨d, hd, _⟩ := map_eq_ok_iff.mp hds
      obtain ⟨hfile, hr, _⟩ := Detection.make?_eq_ok_iff.mp hd
      exact ⟨hfile, hr⟩
    · rintro ⟨hfile, hr⟩
      exact ⟨_, map_eq_ok_iff.mpr ⟨_, Detection.make?_eq_ok_iff.mpr ⟨hfile, hr, rfl⟩, rfl⟩⟩

/-! ## All searches -/

/-- Results that are empty but for some members, and hold one thing each for these. -/
theorem forall₂_filter_flatten {α β : Type} {p : α → Bool} {R : α → β → Prop} {xs : List α}
    {yss : List (List β)}
    (h : List.Forall₂ (fun x ys => if p x then ∃ y, ys = [y] ∧ R x y else ys = []) xs yss) :
    List.Forall₂ R (xs.filter p) yss.flatten := by
  induction h with
  | nil => exact .nil
  | @cons x ys xs yss hx _ ih =>
    by_cases hp : p x = true
    · rw [if_pos hp] at hx
      obtain ⟨y, rfl, hy⟩ := hx
      rw [List.filter_cons_of_pos hp]
      exact .cons hy ih
    · rw [if_neg hp] at hx
      rw [List.filter_cons_of_neg hp, hx]
      exact ih

theorem forall₂_of_detectBy (hradius : 0 ≤ radius) (h : text.length ≤ limit) {ds : List Detection}
    (hds : detectBy occurs rules file text radius limit = .ok ds) :
    List.Forall₂ (fun s d => Reports file (text.splitOn '\n') radius s.1 (occurs s.2) d)
      (matched occurs rules file (text.splitOn '\n')) ds := by
  rw [detectBy_eq h] at hds
  obtain ⟨found, hfound, rfl⟩ := map_eq_ok_iff.mp hds
  apply forall₂_filter_flatten
  refine (mapM_eq_ok_iff.mp hfound).imp ?_
  intro s ys hs
  split
  · rename_i hany
    exact (search_of_some hradius hany).1 ys hs
  · rename_i hany
    rw [search_of_none (by simpa using hany)] at hs
    exact (Except.ok.inj hs).symm

/-- Nothing but a file without a name or a rule that is not reportable makes the search fail. -/
theorem exists_detectBy_ok_iff (hradius : 0 ≤ radius) (h : text.length ≤ limit) :
    (∃ ds, detectBy occurs rules file text radius limit = .ok ds)
      ↔ ∀ s ∈ matched occurs rules file (text.splitOn '\n'), file ≠ "" ∧ s.1.Reportable := by
  have hflatten : (∃ ds, detectBy occurs rules file text radius limit = .ok ds)
      ↔ ∃ found, ((searches rules file).mapM fun s =>
        search file (text.splitOn '\n') radius s.1 (occurs s.2)) = .ok found := by
    rw [detectBy_eq h]
    constructor
    · rintro ⟨ds, hds⟩
      obtain ⟨found, hfound, _⟩ := map_eq_ok_iff.mp hds
      exact ⟨found, hfound⟩
    · rintro ⟨found, hfound⟩
      exact ⟨_, map_eq_ok_iff.mpr ⟨found, hfound, rfl⟩⟩
  rw [hflatten, exists_mapM_ok_iff]
  constructor
  · intro hall s hs
    obtain ⟨hmem, hany⟩ := List.mem_filter.mp hs
    exact (search_of_some hradius hany).2.mp (hall s hmem)
  · intro hall s hs
    by_cases hany : (text.splitOn '\n').any (occurs s.2) = true
    · exact (search_of_some hradius hany).2.mpr (hall s (List.mem_filter.mpr ⟨hs, hany⟩))
    · exact ⟨[], search_of_none (by simpa using hany)⟩

/-- Proper rules are searched for without failure. -/
theorem exists_detectBy_ok (hradius : 0 ≤ radius) (hrules : ∀ r ∈ rules, r.Proper) :
    ∃ ds, detectBy occurs rules file text radius limit = .ok ds := by
  by_cases h : text.length ≤ limit
  · refine (exists_detectBy_ok_iff hradius h).mpr ?_
    intro s hs
    obtain ⟨r, hr, hs⟩ := List.mem_flatMap.mp (List.mem_of_mem_filter hs)
    obtain ⟨p, _, rfl⟩ := List.mem_map.mp hs
    obtain ⟨hmem, happlies⟩ := List.mem_filter.mp hr
    have hproper := hrules r hmem
    exact ⟨isEmpty_eq_false_iff.mp (hproper.file_ne_empty happlies), hproper.toReportable⟩
  · exact ⟨[], if_pos (by omega)⟩

theorem proper_rules : ∀ r ∈ Catalog.rules, r.Proper := by
  have hall : (Catalog.rules.all fun r => r.files.all fun g => !g.core.isEmpty) = true := by
    decide +kernel
  intro r hr
  refine ⟨reportable_rules r hr, ?_⟩
  intro g hg
  simpa using List.all_eq_true.mp (List.all_eq_true.mp hall r hr) g hg

/-- A text that is too long has no detections. Any other one has, of every pattern of every rule for
the file that matches a line, exactly one detection, around the first such line and within the file,
in the order of the rules and of their patterns. For proper rules the search never fails, for others
only because of the name of the file, an id or a confidence. -/
theorem detectBy_exact (occurs : Pattern → List Char → Bool) (rules : List Rule) (file : String)
    (text : List Char) {radius : Int} (hradius : 0 ≤ radius) (limit : Int) :
    (text.length > limit → detectBy occurs rules file text radius limit = .ok [])
    ∧ (text.length ≤ limit →
      (∀ ds, detectBy occurs rules file text radius limit = .ok ds →
        List.Forall₂ (fun s d => Reports file (text.splitOn '\n') radius s.1 (occurs s.2) d)
          (matched occurs rules file (text.splitOn '\n')) ds)
      ∧ ((∃ ds, detectBy occurs rules file text radius limit = .ok ds)
        ↔ ∀ s ∈ matched occurs rules file (text.splitOn '\n'), file ≠ "" ∧ s.1.Reportable))
    ∧ ((∀ r ∈ rules, r.Proper) → ∃ ds, detectBy occurs rules file text radius limit = .ok ds)
    ∧ detect rules file text radius limit
      = detectBy Pattern.occursIn rules file text radius limit := by
  refine ⟨fun h => if_pos h, fun h => ⟨?_, exists_detectBy_ok_iff hradius h⟩, ?_, ?_⟩
  · intro ds hds
    exact forall₂_of_detectBy hradius h hds
  · exact fun hrules => exists_detectBy_ok hradius hrules
  · rw [detect_eq_detectBy]

/-- Three lines, of which the last is empty and the second is matched by two rules. -/
def pluralText : List Char :=
  "let n = 3\nd.toLocaleDateString(count === 1 ? 'item' : 'items')\n".toList

theorem detectBy_exact_plural : pluralText.length ≤ (100 : Int)
    ∧ ∃ ds, detectBy Pattern.occursIn Catalog.rules "src/a.ts" pluralText 7 100 = .ok ds
      ∧ List.Forall₂ (fun s d => Reports "src/a.ts" (pluralText.splitOn '\n') 7 s.1
          (Pattern.occursIn s.2) d)
        (matched Pattern.occursIn Catalog.rules "src/a.ts" (pluralText.splitOn '\n')) ds
      ∧ ds.map (fun d => (d.rule, d.lines.start, d.lines.stop))
        = [("i18n-manual-pluralization", 1, 3), ("i18n-manual-locale-detection", 1, 3)] := by
  have hlimit : pluralText.length ≤ (100 : Int) := by decide +kernel
  have hfound : (detectBy Pattern.occursIn Catalog.rules "src/a.ts" pluralText 7 100).toOption.map
      (fun ds => ds.map fun d => (d.rule, d.lines.start, d.lines.stop))
        = some [("i18n-manual-pluralization", 1, 3), ("i18n-manual-locale-detection", 1, 3)] := by
    -- the characters of the literal are read off it, which is quicker than decoding its bytes
    unfold pluralText
    rw [String.toList_ofList]
    decide +kernel
  obtain ⟨_, hshort, hreturns, _⟩ := detectBy_exact Pattern.occursIn Catalog.rules "src/a.ts"
    pluralText (show (0 : Int) ≤ 7 by decide) 100
  obtain ⟨ds, hds⟩ := hreturns proper_rules
  rw [hds] at hfound
  exact ⟨hlimit, ds, hds, (hshort hlimit).1 ds hds, Option.some.inj hfound⟩

end Catalog

end RepoSurvey
