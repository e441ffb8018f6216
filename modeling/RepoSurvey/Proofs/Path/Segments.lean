import RepoSurvey.Path

/-!
# Segments of a path

Segments without slashes are found again in the text that joins them.

* `Name.Proper`: a name that something in a directory can have;
* `splitSlashes_joined`: splitting undoes joining;
* `splitSlashes_slash`: a text is split in parts;
* `Path.ofText_text_relative`: a path of proper names is read back;
* `Path.mem_of_mem_normalize`: no two dots are left in a path from the root;
* `Name.suffix_append`: a suffix that is added to a name is found again.
-/

namespace RepoSurvey

/-- A name that something in a directory can have. -/
structure Name.Proper (name : String) : Prop where
  ne_empty : name ≠ ""
  ne_dot : name ≠ "."
  ne_dots : name ≠ ".."
  slash_free : '/' ∉ name.toList
  nul_free : '\x00' ∉ name.toList

instance (name : String) : Decidable (Name.Proper name) :=
  decidable_of_iff (name ≠ "" ∧ name ≠ "." ∧ name ≠ ".." ∧ '/' ∉ name.toList
      ∧ '\x00' ∉ name.toList)
    ⟨fun ⟨h₁, h₂, h₃, h₄, h₅⟩ => ⟨h₁, h₂, h₃, h₄, h₅⟩,
      fun h => ⟨h.ne_empty, h.ne_dot, h.ne_dots, h.slash_free, h.nul_free⟩⟩

theorem Text.splitAtEvery_eq_splitOnP (p : Char → Bool) (text : List Char) :
    splitAtEvery p text = text.splitOnP p := by
  induction text with
  | nil => rfl
  | cons c text ih =>
    rw [splitAtEvery_cons, List.splitOnP_cons_eq_if_modifyHead, ih]
    by_cases hc : p c
    · rw [if_pos hc, if_pos hc]
    · rw [if_neg hc, if_neg hc]
      cases hs : text.splitOnP p with
      | nil => exact absurd hs (List.splitOnP_ne_nil p text)
      | cons line rest => rfl

theorem Text.lines_eq_splitOn (text : List Char) : lines text = text.splitOn '\n' := by
  rw [lines, splitAtEvery_eq_splitOnP, List.splitOn_eq_splitOnP]

theorem splitSlashes_joined {segments : List String} (hne : segments ≠ [])
    (h : ∀ s ∈ segments, '/' ∉ s.toList) : splitSlashes (Path.joined segments) = segments := by
  have hsplit : (['/'].intercalate (segments.map String.toList)).splitOn '/'
      = segments.map String.toList := by
    refine List.splitOn_intercalate '/' (fun l hl => ?_) (by simpa using hne)
    obtain ⟨s, hs, rfl⟩ := List.mem_map.mp hl
    exact h s hs
  have hjoined : (Path.joined segments).toList = ['/'].intercalate (segments.map String.toList) :=
    String.toList_intercalate
  rw [splitSlashes, Text.splitAtEvery_eq_splitOnP, ← List.splitOn_eq_splitOnP, hjoined, hsplit,
    List.map_map]
  exact (List.map_congr_left fun s _ => String.ofList_toList).trans (List.map_id _)

/-- A text is split in two parts, before a slash and behind it. -/
theorem splitSlashes_slash (front back : String) :
    splitSlashes (front ++ "/" ++ back) = splitSlashes front ++ splitSlashes back := by
  have hchars : (front ++ "/" ++ back).toList = front.toList ++ '/' :: back.toList := by simp
  have hslash : ('/' == '/') = true := rfl
  have hcut := List.splitOnP_append_cons (p := (· == '/')) front.toList back.toList hslash
  rw [splitSlashes, splitSlashes, splitSlashes, hchars, Text.splitAtEvery_eq_splitOnP,
    Text.splitAtEvery_eq_splitOnP, Text.splitAtEvery_eq_splitOnP, hcut, List.map_append]

namespace Path

theorem text_relative {segments : List String} (hne : segments ≠ []) :
    (relative segments).text = joined segments := by
  cases segments with
  | nil => exact absurd rfl hne
  | cons s rest => rfl

/-- A text that starts with a slash has an empty first segment. -/
theorem splitSlashes_of_startsWith {text : String} (h : text.startsWith "/" = true) :
    ∃ rest, splitSlashes text = "" :: rest := by
  obtain ⟨rest, hrest⟩ := String.startsWith_string_iff.mp h
  have hchars : text.toList = '/' :: rest := hrest.symm
  rw [splitSlashes, hchars]
  exact ⟨_, rfl⟩

theorem startsWith_joined {segments : List String} (hne : segments ≠ [])
    (h : ∀ s ∈ segments, Name.Proper s) : (joined segments).startsWith "/" = false := by
  rw [← Bool.not_eq_true]
  intro hslash
  obtain ⟨rest, hrest⟩ := splitSlashes_of_startsWith hslash
  rw [splitSlashes_joined hne fun s hs => (h s hs).slash_free] at hrest
  exact (h "" (hrest ▸ List.mem_cons_self)).ne_empty rfl

theorem ofText_text_relative {segments : List String} (h : ∀ s ∈ segments, Name.Proper s) :
    ofText (relative segments).text = relative segments := by
  by_cases hne : segments = []
  · rw [hne]
    decide +kernel
  · have hkept : segments.filter (fun s => s != "" && s != ".") = segments := by
      refine List.filter_eq_self.mpr fun s hs => ?_
      simp [(h s hs).ne_empty, (h s hs).ne_dot]
    rw [text_relative hne, ofText, startsWith_joined hne h,
      splitSlashes_joined hne fun s hs => (h s hs).slash_free, hkept, relative]

/-- A relative path is told by its text. -/
theorem text_relative_inj {p q : List String} (hp : ∀ s ∈ p, Name.Proper s)
    (hq : ∀ s ∈ q, Name.Proper s) (h : (relative p).text = (relative q).text) : p = q := by
  have hread := congrArg ofText h
  rw [ofText_text_relative hp, ofText_text_relative hq] at hread
  exact congrArg segments hread

/-- The segments of a text are neither empty nor a single dot. -/
theorem of_mem_ofText {text s : String} (h : s ∈ (ofText text).segments) : s ≠ "" ∧ s ≠ "." := by
  simpa using (List.mem_filter.mp h).2

/-- What is left of a path from the root is taken from it, and is not two dots. -/
theorem mem_of_mem_normalize {p : Path} (habsolute : p.absolute = true) {s : String}
    (h : s ∈ p.normalize.segments) : s ∈ p.segments ∧ s ≠ ".." := by
  refine List.foldlRecOn p.segments _
    (motive := fun kept => ∀ s ∈ kept, s ∈ p.segments ∧ s ≠ "..") (by simp) ?_ s
    (List.mem_reverse.mp h)
  intro kept hkept a ha
  by_cases hdots : a = ".."
  · rw [if_pos hdots]
    cases kept with
    | nil => simp [habsolute]
    | cons top rest =>
      obtain ⟨htop, hrest⟩ := List.forall_mem_cons.mp hkept
      dsimp only
      rw [if_neg htop.2]
      exact hrest
  · rw [if_neg hdots]
    exact List.forall_mem_cons.mpr ⟨⟨ha, hdots⟩, hkept⟩

end Path

namespace Name

theorem splitSuffix_append_dot {stem ending : List Char} (hstem : stem ≠ []) (hending : ending ≠ [])
    (hdots : '.' ∉ ending) : splitSuffix (stem ++ '.' :: ending) = (stem, '.' :: ending) := by
  have hreverse : (stem ++ '.' :: ending).reverse = ending.reverse ++ '.' :: stem.reverse := by
    simp
  have hplain : ∀ c ∈ ending.reverse, (c != '.') = true := by
    intro c hc
    rw [bne_iff_ne]
    rintro rfl
    exact hdots (List.mem_reverse.mp hc)
  unfold splitSuffix
  rw [hreverse, List.takeWhile_append_of_pos hplain, List.dropWhile_append_of_pos hplain]
  simp [hstem, hending]

/-- A suffix that is added to a name is found again. -/
theorem suffix_append {name ending : String} (hname : name ≠ "") (hending : ending ≠ "")
    (hdots : '.' ∉ ending.toList) : suffix (name ++ ("." ++ ending)) = "." ++ ending := by
  have hne : ∀ {s : String}, s ≠ "" → s.toList ≠ [] :=
    fun hs h => hs (String.toList_eq_nil_iff.mp h)
  rw [suffix, String.toList_append, String.toList_append]
  show String.ofList (splitSuffix (name.toList ++ '.' :: ending.toList)).2 = _
  rw [splitSuffix_append_dot (hne hname) (hne hending) hdots]
  exact String.toList_inj.mp (by simp)

end Name

end RepoSurvey
