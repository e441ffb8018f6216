import RepoSurvey.Proofs.Import.Shape

/-!
# Lines of static imports

What is found in a text whose lines are import statements without semicolons.

* `StaticImport`: such a statement, and `StaticImport.text`, the text that the statements make up;
* `Import.opening_of_quotes`: the quoted relative paths of the text are those of the statements;
* `Import.matchAt?_reaching`: a match reaches the nearest statement that imports names from a
  relative path, whatever stands before it;
* `Import.findFrom_reaching`, `Import.findFrom_line`: where the search goes on;
* `Import.captures_fromStatement`: so the statements found are the `caught` ones;
* `Import.mem_literals_text`: the paths found are those of the caught statements.
-/

namespace RepoSurvey

/-- An import of a path, and of names from it if there is a clause. The clause is a name, a
namespace or names in braces; all that matters is that it is written on the line and does not start
with a blank. -/
structure StaticImport where
  clause : Option (List Char)
  mark : Char
  path : List Char
  isMark_mark : Import.isMark mark = true
  inline_path : Inline path
  inline_clause : ∀ names ∈ clause, Inline names
  starts : ∀ names ∈ clause, names.head?.any (fun c => !Text.isBlank c) = true

namespace StaticImport

open Import

/-- What stands between `import` and the quoted path. -/
def names (s : StaticImport) : List Char :=
  match s.clause with
  | none => []
  | some clause => clause ++ " from ".toList

def head (s : StaticImport) : List Char := "import ".toList ++ s.names

def line (s : StaticImport) : List Char := s.head ++ s.mark :: (s.path ++ [s.mark])

def relative (s : StaticImport) : Bool := Import.isRelative s.path

/-- Names are imported, and the path is relative. -/
def reaching (s : StaticImport) : Bool := s.clause.isSome && s.relative

/-- The end of a line that is not the last one, or is `closed` though it is. -/
def lineEnd (closed : Bool) (after : List StaticImport) : List Char :=
  if closed || !after.isEmpty then ['\n'] else []

/-- The statements line by line; a line feed ends the last one if the text is `closed`. -/
def text (closed : Bool) : List StaticImport → List Char
  | [] => []
  | s :: after => s.line ++ lineEnd closed after ++ text closed after

/-- The statements whose paths are found: those that import names from a relative path, and the
other ones with a relative path as long as none of the former follows. -/
def caught : List StaticImport → List StaticImport
  | [] => []
  | s :: after =>
    if s.reaching || (s.relative && !after.any reaching) then s :: caught after else caught after

variable {s t : StaticImport} {closed : Bool} {before after ss : List StaticImport}

theorem head_eq (s : StaticImport) : s.head = "import ".toList ++ s.names := rfl

@[simp] theorem line_ne_nil : s.line ≠ [] := by simp [line]

theorem lineEnd_cons : lineEnd closed (s :: after) = ['\n'] := by simp [lineEnd]

theorem text_append : text closed (before ++ s :: after)
    = text true before ++ text closed (s :: after) := by
  induction before with
  | nil => rfl
  | cons b before ih =>
    have hend : lineEnd closed (before ++ s :: after) = lineEnd true before := by simp [lineEnd]
    rw [List.cons_append, text, ih, hend, text.eq_2 true]
    simp only [List.append_assoc]

theorem inline_append {front back : List Char} (hfront : Inline front) (hback : Inline back) :
    Inline (front ++ back) :=
  fun c hc => (List.mem_append.mp hc).elim (hfront c) (hback c)

theorem inline_names (s : StaticImport) : Inline s.names := by
  rw [names]
  cases hclause : s.clause with
  | none => exact fun c hc => absurd hc List.not_mem_nil
  | some clause => exact inline_append (s.inline_clause clause hclause) (by decide)

theorem inline_head (s : StaticImport) : Inline s.head :=
  inline_append (by decide) s.inline_names

theorem noSemicolon_text : ∀ c ∈ text closed ss, c ≠ ';' := by
  induction ss with
  | nil => exact fun c hc => absurd hc List.not_mem_nil
  | cons s after ih =>
    intro c hc
    have hmark : s.mark ≠ ';' := by
      intro h
      have := s.isMark_mark
      rw [h] at this
      revert this
      decide
    simp only [text, line, lineEnd, List.mem_append, List.mem_cons, List.not_mem_nil,
      or_false] at hc
    rcases hc with ((hc | rfl | hc | rfl) | hc) | hc
    · exact (s.inline_head c hc).2.1
    · exact hmark
    · exact (s.inline_path c hc).2.1
    · exact hmark
    · split at hc
      · rw [List.mem_singleton.mp hc]
        decide
      · cases hc
    · exact ih c hc

/-- Behind `import` and one blank, no blank comes next. -/
theorem exists_names_append (s : StaticImport) (more : List Char) :
    ∃ c rest, s.names ++ s.mark :: more = c :: rest ∧ Text.isBlank c = false := by
  cases hclause : s.clause with
  | none => exact ⟨s.mark, more, by simp [names, hclause], isBlank_of_isMark s.isMark_mark⟩
  | some clause =>
    have hstart := s.starts clause hclause
    cases clause with
    | nil => cases hstart
    | cons c clause =>
      refine ⟨c, clause ++ " from ".toList ++ s.mark :: more, ?_, by simpa using hstart⟩
      simp only [names, hclause, List.cons_append]

end StaticImport

namespace Import

open Pattern StaticImport

variable {s t : StaticImport} {closed : Bool} {before after ss : List StaticImport}
  {lead path rest : List Char} {mark : Char}

/-! ## Quotation marks -/

/-- The quoted relative paths of a text of static imports are those of its statements: a closing
mark is followed by the end of the line, so it opens no quotation. -/
theorem opening_of_quotes (h : Quotes (text closed ss) lead path rest mark) :
    ∃ before s after, ss = before ++ s :: after ∧ lead = text true before ++ s.head
      ∧ s.path = path := by
  obtain ⟨close, hclose, htext⟩ := h.text_eq
  have hpath : ∀ c ∈ path, isMark c = false := fun c hc => (h.quotable c hc).1
  induction ss generalizing lead with
  | nil => simp [text] at htext
  | cons s after ih =>
    have hshape : s.head ++ s.mark :: (s.path ++ s.mark ::
        (lineEnd closed after ++ text closed after)) = lead ++ mark :: (path ++ close :: rest) := by
      rw [← htext, text, line]
      simp
    rcases eq_or_later_of_append_mark (noMark_of_inline s.inline_head) h.isMark hshape with
      ⟨rfl, rfl, hpaths⟩ | ⟨lead, rfl, hlater⟩
    · refine ⟨[], s, after, rfl, rfl, ?_⟩
      rcases eq_or_later_of_append_mark (noMark_of_inline s.inline_path) hclose hpaths.symm with
        ⟨rfl, _⟩ | ⟨more, rfl, _⟩
      · rfl
      · have hno := hpath s.mark (by simp)
        rw [s.isMark_mark] at hno
        cases hno
    · rcases eq_or_later_of_append_mark (noMark_of_inline s.inline_path) h.isMark hlater with
        ⟨rfl, rfl, hend⟩ | ⟨lead, rfl, hend⟩
      · -- the closing mark
        obtain ⟨tail, rfl⟩ := exists_cons_of_isRelative h.relative
        cases after with
        | nil => cases closed <;> simp [lineEnd, text] at hend
        | cons t after => simp [lineEnd] at hend
      · have hfeed : ∃ more, lead = '\n' :: more
            ∧ text closed after = more ++ mark :: (path ++ close :: rest) := by
          cases after with
          | nil => cases closed <;> cases lead <;> simp [lineEnd, text] at hend
          | cons t after =>
            rw [lineEnd_cons, List.singleton_append] at hend
            cases lead with
            | nil =>
              obtain ⟨rfl, _⟩ := List.cons.inj hend
              exact absurd h.isMark (by decide)
            | cons c more =>
              obtain ⟨rfl, hmore⟩ := List.cons.inj hend
              exact ⟨more, rfl, hmore⟩
        obtain ⟨more, rfl, hmore⟩ := hfeed
        obtain ⟨before, t, after', rfl, hlead, hsame⟩ :=
          ih ⟨h.isMark, h.relative, h.quotable, close, hclose, hmore⟩ hmore
        refine ⟨s :: before, t, after', rfl, ?_, hsame⟩
        rw [text, hlead, line]
        simp [lineEnd]

/-! ## What stands before the quotation -/

/-- The last character that is no blank, and the place of it. -/
theorem eq_of_append_blanks {x y gap gap' : List Char} {c d : Char}
    (h : x ++ c :: gap = y ++ d :: gap') (hc : Text.isBlank c = false)
    (hd : Text.isBlank d = false) (hgap : ∀ b ∈ gap, Text.isBlank b = true)
    (hgap' : ∀ b ∈ gap', Text.isBlank b = true) : x = y ∧ c = d := by
  rcases List.append_eq_append_iff.mp h with ⟨more, rfl, hmore⟩ | ⟨more, rfl, hmore⟩
  · cases more with
    | nil => exact ⟨by simp, (List.cons.inj hmore).1⟩
    | cons b more =>
      have hblank := hgap d (by rw [(List.cons.inj hmore).2]; simp)
      rw [hd] at hblank
      cases hblank
  · cases more with
    | nil => exact ⟨by simp, (List.cons.inj hmore).1.symm⟩
    | cons b more =>
      have hblank := hgap' c (by rw [(List.cons.inj hmore).2]; simp)
      rw [hc] at hblank
      cases hblank

theorem exists_head_eq (s : StaticImport) : ∃ front,
    s.head = front ++ [if s.clause.isSome then 'm' else 't', ' '] := by
  rw [head_eq, names]
  cases s.clause with
  | none =>
    have himport : "import ".toList = "impor".toList ++ ['t', ' '] := rfl
    exact ⟨"impor".toList, by rw [himport]; simp⟩
  | some clause =>
    have hfrom : " from ".toList = " fro".toList ++ ['m', ' '] := rfl
    exact ⟨"import ".toList ++ (clause ++ " fro".toList), by rw [hfrom]; simp⟩

/-- The head of a statement ends in `import` or in `from`. -/
theorem lastInk_head {front lead gap : List Char} {c : Char}
    (h : front ++ s.head = lead ++ c :: gap) (hc : Text.isBlank c = false)
    (hgap : ∀ b ∈ gap, Text.isBlank b = true) : c = if s.clause.isSome then 'm' else 't' := by
  obtain ⟨start, hstart⟩ := exists_head_eq s
  rw [hstart, ← List.append_assoc] at h
  have hink : Text.isBlank (if s.clause.isSome then 'm' else 't') = false := by
    split <;> decide
  exact (eq_of_append_blanks h hink hc isBlank_of_mem_space hgap).2.symm

theorem not_endsIn_parenthesis {front : List Char} : ¬ EndsIn "(".toList (front ++ s.head) := by
  rintro ⟨lead, gap, hlead, hgap⟩
  have hword : front ++ s.head = lead ++ '(' :: gap := by
    rw [hlead, List.append_assoc]
    rfl
  have hink := lastInk_head hword (by decide) hgap
  split at hink <;> cases hink

theorem isSome_of_endsIn_from {front : List Char} (h : EndsIn "from".toList (front ++ s.head)) :
    s.clause.isSome = true := by
  obtain ⟨lead, gap, hlead, hgap⟩ := h
  have hword : front ++ s.head = (lead ++ "fro".toList) ++ 'm' :: gap := by
    rw [hlead, List.append_assoc, List.append_assoc]
    rfl
  have hink := lastInk_head hword (by decide) hgap
  split at hink
  · assumption
  · cases hink

/-- An import without a clause starts where the statement does. -/
theorem eq_of_bare {front start gap : List Char} (hgap : ∀ b ∈ gap, Text.isBlank b = true)
    (h : front ++ s.head = start ++ ("import".toList ++ gap)) :
    s.clause = none ∧ start = front := by
  have hword : front ++ s.head = (start ++ "impor".toList) ++ 't' :: gap := by
    rw [h, List.append_assoc]
    rfl
  have hink := lastInk_head hword (by decide) hgap
  have hnone : s.clause = none := by
    cases hclause : s.clause with
    | none => rfl
    | some clause => simp [hclause] at hink
  refine ⟨hnone, ?_⟩
  have hcut : (front ++ "impor".toList) ++ 't' :: [' ']
      = (start ++ "impor".toList) ++ 't' :: gap := by
    have himport : "import ".toList = "impor".toList ++ ['t', ' '] := rfl
    rw [← hword, head_eq, names, hnone, himport]
    simp
  have hsame := (eq_of_append_blanks hcut (by decide) (by decide) isBlank_of_mem_space hgap).1
  exact (List.append_cancel_right hsame).symm

/-! ## Matches -/

variable {b : Option Char} {o : Nat}

theorem matchAt?_eq_none {text : List Char}
    (h : ∀ lead path rest mark, Quotes text lead path rest mark → ¬ ImportLead lead) :
    fromStatement.matchAt? b o text = none := by
  cases hm : fromStatement.matchAt? b o text with
  | none => rfl
  | some m =>
    obtain ⟨e, he, _⟩ := exists_of_matchAt? hm
    obtain ⟨lead, path, rest, mark, hquotes, hlead, _⟩ := quotes_of_fromStatement he
    exact absurd hlead (h lead path rest mark hquotes)

/-- Without names imported from a relative path, only an import without a clause can match, and
from its own start on. -/
theorem eq_of_importLead (start : List Char) (hss : ∀ s ∈ ss, s.reaching = false)
    (hquotes : Quotes (text closed ss) (start ++ lead) path rest mark) (hlead : ImportLead lead) :
    ∃ before s after, ss = before ++ s :: after ∧ s.relative = true ∧ s.path = path
      ∧ start = text true before ∧ lead = s.head := by
  obtain ⟨before, s, after, rfl, hhead, rfl⟩ := opening_of_quotes hquotes
  refine ⟨before, s, after, rfl, hquotes.relative, rfl, ?_⟩
  cases hlead with
  | bare hgap _ =>
    obtain ⟨_, rfl⟩ := eq_of_bare hgap hhead.symm
    exact ⟨rfl, List.append_cancel_left hhead⟩
  | «from» _ _ htail =>
    have hsome := isSome_of_endsIn_from (hhead ▸ endsIn_append (endsIn_append htail _) start)
    have hreaching := hss s (by simp)
    rw [reaching, hsome, relative, hquotes.relative] at hreaching
    cases hreaching

/-- The word `import` and the blank behind it, where no second blank follows. -/
theorem mem_ends_importBlank (cur : Cursor) {e : Cursor} {more : List Char} {c : Char}
    (hrest : cur.rest = "import ".toList ++ c :: more) (hc : Text.isBlank c = false) :
    e ∈ ends (seqs ["import", blanks1]) cur ↔ e = cur.after "import ".toList (c :: more) :=
  mem_ends_wordBlank "import" hrest hc

theorem text_cons : text closed (s :: after) = s.head ++ s.mark :: (s.path ++ s.mark ::
    (lineEnd closed after ++ text closed after)) := by
  simp [text, line]

/-- The quoted path of a statement, if it is relative. -/
theorem exists_mem_ends_quotedPath (cur : Cursor) (hs : s.relative = true)
    (hrest : cur.rest = s.mark :: (s.path ++ s.mark :: rest)) :
    ∃ e ∈ ends quotedPath cur, e.offset = cur.offset + s.path.length + 2
      ∧ e.captured.map Capture.chars = s.path :: cur.captured.map Capture.chars := by
  refine ⟨_, mem_ends_quotedPath.mpr ⟨s.mark, s.path, s.mark, rest, s.isMark_mark, s.isMark_mark,
    hs, fun c hc => ⟨(s.inline_path c hc).1, (s.inline_path c hc).2.2⟩, hrest, rfl⟩, ?_, ?_⟩
  · simp [Cursor.capture, Nat.add_assoc]
  · simp [Cursor.capture, Capture.chars]

/-- An import without a clause matches if no names are imported from a relative path later on. -/
theorem matchAt?_bare (hs : s.relative = true) (hss : ∀ t ∈ s :: after, t.reaching = false) :
    fromStatement.matchAt? b o (text closed (s :: after))
      = some ⟨o, o + s.line.length, [s.path]⟩ := by
  have hnone : s.clause = none := by
    have hreaching := hss s List.mem_cons_self
    rw [reaching, hs, Bool.and_true] at hreaching
    simpa using hreaching
  have hhead : s.head = "import ".toList := by
    rw [head_eq, names, hnone, List.append_nil]
  rw [matchAt?_eq_run]
  refine run_eq_some_of_unique ?_ ?_
  · have htext : text closed (s :: after) = "import ".toList ++ s.mark :: (s.path ++ s.mark ::
        (lineEnd closed after ++ text closed after)) := hhead ▸ text_cons
    obtain ⟨e, he, hoffset, hcaptured⟩ := exists_mem_ends_quotedPath
      (Cursor.after ⟨b, text closed (s :: after), o, []⟩ "import ".toList _) hs rfl
    refine ⟨e, ?_, ?_⟩
    · have hblank := (mem_ends_importBlank ⟨b, text closed (s :: after), o, []⟩ htext
        (isBlank_of_isMark s.isMark_mark)).mpr rfl
      refine (mem_ends_seqs_append ["import", blanks1] _).mpr ⟨_, hblank, ?_⟩
      exact mem_ends_seqs_cons.mpr ⟨_, mem_ends_alt.mpr (Or.inr (mem_ends_empty.mpr rfl)), he⟩
    · rw [List.map_reverse, hcaptured, hoffset, line, hhead]
      simp
      omega
  · intro e he m hm
    obtain ⟨lead, path, rest, mark, hquotes, hlead, hoffset, hcaptured⟩ :=
      quotes_of_fromStatement he
    obtain ⟨before, t, after', hsplit, _, rfl, hstart, rfl⟩ :=
      eq_of_importLead [] hss hquotes hlead
    cases before with
    | cons u before => simp [text] at hstart
    | nil =>
      obtain ⟨rfl, rfl⟩ := List.cons.inj hsplit
      rw [← Option.some.inj hm, List.map_reverse, hcaptured, hoffset, line]
      simp [Nat.add_assoc]

/-- Of the paths that names are imported from, the nearest one comes before the mark that opens any
other. -/
theorem eq_nearest (hbefore : ∀ s ∈ before, s.reaching = false)
    (hquotes : Quotes (text closed (before ++ t :: after)) lead path rest mark)
    (hlead : EndsIn "from".toList lead)
    (hnear : ∀ more, lead ≠ text true before ++ t.head ++ t.mark :: more) :
    lead = text true before ++ t.head ∧ path = t.path := by
  obtain ⟨before', s, after', hsplit, rfl, rfl⟩ := opening_of_quotes hquotes
  have hreaching : s.reaching = true := by
    rw [reaching, isSome_of_endsIn_from hlead, relative, hquotes.relative]
    rfl
  rcases List.append_eq_append_iff.mp hsplit with
    ⟨between, rfl, hbetween⟩ | ⟨between, rfl, hbetween⟩
  · cases between with
    | nil =>
      obtain ⟨rfl, rfl⟩ := List.cons.inj hbetween
      exact ⟨by rw [List.append_nil], rfl⟩
    | cons u between =>
      obtain ⟨rfl, rfl⟩ := List.cons.inj hbetween
      exfalso
      refine hnear ?_ ?_
      · exact t.path ++ t.mark :: (lineEnd true between ++ text true between ++ s.head)
      · rw [text_append, text_cons]
        simp
  · cases between with
    | nil =>
      obtain ⟨rfl, rfl⟩ := List.cons.inj hbetween
      exact ⟨by rw [List.append_nil], rfl⟩
    | cons u between =>
      obtain ⟨rfl, rfl⟩ := List.cons.inj hbetween
      rw [hbefore s (by simp)] at hreaching
      cases hreaching

/-- What stands between the `import` of a first statement and the `from` of a later one. -/
theorem exists_passed (ht : t.clause.isSome = true) (before : List StaticImport) :
    ∃ c passed, Text.isBlank c = false
      ∧ text true before ++ t.head = "import ".toList ++ (c :: passed ++ " from ".toList) := by
  obtain ⟨clause, hclause⟩ := Option.isSome_iff_exists.mp ht
  have hhead : t.head = "import ".toList ++ (clause ++ " from ".toList) := by
    rw [head_eq, names, hclause]
  cases before with
  | nil =>
    have hstart := t.starts clause hclause
    cases clause with
    | nil => cases hstart
    | cons c clause => exact ⟨c, clause, by simpa using hstart, by rw [hhead, text]; rfl⟩
  | cons s before =>
    obtain ⟨c, rest, hrest, hc⟩ := s.exists_names_append (s.path ++ s.mark ::
      (lineEnd true before ++ text true before))
    refine ⟨c, rest ++ "import ".toList ++ clause, hc, ?_⟩
    rw [text_cons, hhead, head_eq s, List.append_assoc "import ".toList, hrest]
    simp only [List.append_assoc, List.cons_append]

/-- A `from` that can be reached without passing the nearest one is that one. -/
theorem eq_of_nearer {cur e : Cursor} {u v tail : List Char}
    (hbefore : ∀ s ∈ before, s.reaching = false)
    (hrest : cur.rest = text closed (before ++ t :: after))
    (hhead : text true before ++ t.head = "import ".toList ++ (u ++ v ++ " from ".toList))
    (htail : cur.rest = "import ".toList ++ (u ++ (v ++ " from ".toList ++ t.mark :: tail)))
    (he : e ∈ ends (seqs [blanks1, "from", blanks1, quotedPath])
      (cur.after ("import ".toList ++ u) (v ++ " from ".toList ++ t.mark :: tail))) :
    e.offset = cur.offset + (text true before ++ t.line).length
      ∧ e.captured.map Capture.chars = t.path :: cur.captured.map Capture.chars := by
  obtain ⟨next, hnext, hpath⟩ :=
    (mem_ends_seqs_append [blanks1, "from", blanks1] [quotedPath]).mp he
  obtain ⟨gap, gap', left, hleft, hgap, _, hgap', _, rfl⟩ := mem_ends_between.mp hnext
  rw [Cursor.after_rest] at hleft
  rw [Cursor.after_after] at hpath
  have hwhole : cur.rest = ("import ".toList ++ u ++ (gap ++ "from".toList ++ gap')) ++ left := by
    rw [htail, hleft]
    simp only [List.append_assoc]
  obtain ⟨path, rest, mark, hquotes, hoffset, hcaptured⟩ := quotes_of_mem_ends hpath hwhole
  rw [hrest] at hquotes
  have hlead : EndsIn "from".toList ("import ".toList ++ u ++ (gap ++ "from".toList ++ gap')) :=
    endsIn_append ⟨gap, gap', rfl, hgap'⟩ _
  obtain ⟨hsame, rfl⟩ := eq_nearest hbefore hquotes hlead fun more hmore => by
    -- blanks and a word hold no quotation mark
    rw [hhead] at hmore
    have hcut : gap ++ "from".toList ++ gap' = v ++ " from ".toList ++ t.mark :: more := by
      simpa only [List.append_assoc, List.append_cancel_left_eq] using hmore
    have hmem : t.mark ∈ gap ++ "from".toList ++ gap' := by
      rw [hcut]
      simp
    have hmark := t.isMark_mark
    rcases List.mem_append.mp hmem with hmem | hmem
    · rcases List.mem_append.mp hmem with hmem | hmem
      · have hblank := isBlank_of_isMark hmark
        rw [hgap _ hmem] at hblank
        cases hblank
      · have hword : ("from".toList.any isMark) = false := by decide
        exact List.any_eq_false.mp hword _ hmem hmark
    · have hblank := isBlank_of_isMark hmark
      rw [hgap' _ hmem] at hblank
      cases hblank
  refine ⟨?_, hcaptured⟩
  rw [hoffset, hsame, line]
  simp [Nat.add_assoc]

theorem run_fromPath {α : Type} (cur : Cursor) (k : Cursor → Option α) :
    (seqs [blanks1, "from", blanks1, quotedPath]).run cur k
      = (seqs [blanks1, "from", blanks1]).run cur fun next => quotedPath.run next k :=
  run_seqs_append [blanks1, "from", blanks1] [quotedPath] cur k

theorem run_optional_of_some {α : Type} {p q : Pattern} {cur : Cursor} {k : Cursor → Option α}
    {a : α} (h : p.run cur (fun next => q.run next k) = some a) :
    (seqs [optional p, q]).run cur k = some a := by
  have hseq : seqs [optional p, q] = .seq (.alt p .empty) q := rfl
  rw [hseq, run, run, h]

/-- Behind the names of a statement the word `from` and its path can be read. -/
theorem exists_mem_ends_fromPath (cur : Cursor) (ht : t.relative = true)
    (hrest : cur.rest = " from ".toList ++ t.mark :: (t.path ++ t.mark :: rest)) :
    ∃ e, e ∈ ends (seqs [blanks1, "from", blanks1, quotedPath]) cur := by
  obtain ⟨e, he, _⟩ := exists_mem_ends_quotedPath
    (cur.after " from ".toList (t.mark :: (t.path ++ t.mark :: rest))) ht rfl
  refine ⟨e, (mem_ends_seqs_append [blanks1, "from", blanks1] [quotedPath]).mpr
    ⟨_, mem_ends_between.mpr ?_, he⟩⟩
  exact ⟨[' '], [' '], _, hrest, isBlank_of_mem_space, by simp, isBlank_of_mem_space, by simp, rfl⟩

/-- Behind `import` a shortest clause is taken that leads up to the nearest `from`. -/
theorem run_clause {α : Type} (cur : Cursor) {k : Cursor → Option α} {a : α}
    {passed tail : List Char} (hbefore : ∀ s ∈ before, s.reaching = false)
    (ht : t.reaching = true) (hrest : cur.rest = text closed (before ++ t :: after))
    (hhead : text true before ++ t.head = "import ".toList ++ (passed ++ " from ".toList))
    (htail : tail = t.path ++ t.mark :: (lineEnd closed after ++ text closed after))
    (hk : ∀ e, e.offset = cur.offset + (text true before ++ t.line).length →
      e.captured.map Capture.chars = t.path :: cur.captured.map Capture.chars → k e = some a) :
    (Pattern.repeated (.noneOf ";") 0 none .shortest).run
      (cur.after "import ".toList (passed ++ (" from ".toList ++ t.mark :: tail)))
      (fun next => (seqs [blanks1, "from", blanks1, quotedPath]).run next k) = some a := by
  have htext : cur.rest = "import ".toList ++ (passed ++ (" from ".toList ++ t.mark :: tail)) := by
    rw [hrest, text_append, text_cons, ← List.append_assoc, hhead, htail]
    simp only [List.append_assoc]
  -- whatever the clause is taken to be, the match ends at the same place
  have hall : ∀ u v e, passed = u ++ v →
      e ∈ ends (seqs [blanks1, "from", blanks1, quotedPath])
        ((cur.after "import ".toList (passed ++ (" from ".toList ++ t.mark :: tail))).after u
          (v ++ (" from ".toList ++ t.mark :: tail))) → k e = some a := by
    intro u v e hsplit he
    rw [Cursor.after_after, ← List.append_assoc] at he
    have hcut : cur.rest
        = "import ".toList ++ (u ++ (v ++ " from ".toList ++ t.mark :: tail)) := by
      rw [htext, hsplit]
      simp only [List.append_assoc]
    obtain ⟨hoffset, hcaptured⟩ := eq_of_nearer hbefore hrest (by rw [hhead, hsplit]) hcut he
    exact hk e hoffset hcaptured
  refine run_shortest_eq_some rfl ?_ ?_ ?_
  · intro d hd
    have hmem : d ∈ text closed (before ++ t :: after) := by
      rw [← hrest, htext]
      exact List.mem_append_right _ (List.mem_append_left _ hd)
    simpa [CharSet.noneOf] using noSemicolon_text d hmem
  · refine run_eq_some_of_unique ?_ ?_
    · obtain ⟨e, he⟩ := exists_mem_ends_fromPath
        ((cur.after "import ".toList (passed ++ (" from ".toList ++ t.mark :: tail))).after
          passed (" from ".toList ++ t.mark :: tail))
        ((Bool.and_eq_true _ _).mp ht).2 (by rw [Cursor.after_rest, htail])
      exact ⟨e, he, hall passed [] e (by simp) he⟩
    · intro e he m hm
      rw [hall passed [] e (by simp) he] at hm
      exact (Option.some.inj hm).symm
  · intro u v m hsplit hm
    obtain ⟨e, he, hm⟩ := exists_of_run_eq_some hm
    rw [hall u v e hsplit he] at hm
    exact (Option.some.inj hm).symm

/-- A match reaches the nearest statement that imports names from a relative path. -/
theorem matchAt?_reaching (hbefore : ∀ s ∈ before, s.reaching = false) (ht : t.reaching = true) :
    fromStatement.matchAt? b o (text closed (before ++ t :: after))
      = some ⟨o, o + (text true before ++ t.line).length, [t.path]⟩ := by
  obtain ⟨c, passed, hc, hhead⟩ := exists_passed ((Bool.and_eq_true _ _).mp ht).1 before
  have htext : text closed (before ++ t :: after) = "import ".toList ++ (c :: passed ++
      (" from ".toList ++ t.mark :: (t.path ++ t.mark ::
        (lineEnd closed after ++ text closed after)))) := by
    rw [text_append, text_cons, ← List.append_assoc, hhead]
    simp only [List.append_assoc]
  have hblank := fun e => mem_ends_importBlank ⟨b, text closed (before ++ t :: after), o, []⟩
    (e := e) htext hc
  have hclause := run_clause ⟨b, text closed (before ++ t :: after), o, []⟩
    (k := fun stop => some ⟨o, stop.offset, stop.captured.reverse.map Capture.chars⟩)
    (a := (⟨o, o + (text true before ++ t.line).length, [t.path]⟩ : Match))
    hbefore ht rfl hhead rfl fun e hoffset hcaptured => by
      rw [hoffset, List.map_reverse, hcaptured]
      rfl
  simp only [run_fromPath] at hclause
  -- the clause and the word behind it are tried before doing without
  have hrest := run_optional_of_some ((run_seqs_append [.repeated (.noneOf ";") 0 none .shortest]
    [blanks1, "from", blanks1] _ _).trans hclause)
  rw [matchAt?_eq_run, fromStatement]
  refine (run_seqs_append ["import", blanks1] _ _ _).trans ?_
  refine run_eq_some_of_unique ⟨_, (hblank _).mpr rfl, hrest⟩ ?_
  intro e he m hm
  rw [(hblank e).mp he] at hm
  exact Option.some.inj (hm.symm.trans hrest)

/-! ## The statements found -/

theorem caught_reaching (hbefore : ∀ s ∈ before, s.reaching = false) (ht : t.reaching = true) :
    caught (before ++ t :: after) = t :: caught after := by
  induction before with
  | nil => rw [List.nil_append, caught, ht, Bool.true_or, if_pos rfl]
  | cons s before ih =>
    obtain ⟨hs, hbefore⟩ := List.forall_mem_cons.mp hbefore
    have hany : (before ++ t :: after).any reaching = true := by simp [ht]
    rw [List.cons_append, caught, hs, hany, Bool.not_true, Bool.and_false, Bool.or_false,
      if_neg Bool.false_ne_true, ih hbefore]

theorem caught_quiet (hss : ∀ t ∈ s :: after, t.reaching = false) :
    caught (s :: after) = if s.relative then s :: caught after else caught after := by
  obtain ⟨hs, hafter⟩ := List.forall_mem_cons.mp hss
  have hany : after.any reaching = false := by simpa using hafter
  rw [caught, hs, hany, Bool.false_or, Bool.not_false, Bool.and_true]

/-- No statement starts at the end of a line. -/
theorem findFrom_lineEnd {found : List Match} : ∃ b' o',
    fromStatement.findFrom b o 0 found (lineEnd closed after ++ text closed after)
      = fromStatement.findFrom b' o' 0 found (text closed after) := by
  refine ⟨_, _, findFrom_of_forall_none fun u v b o hsplit hv => matchAt?_eq_none ?_⟩
  rintro lead path rest mark hquotes hlead
  have hstart : ∃ more, lead = 'i' :: more := by
    cases hlead <;> exact ⟨_, rfl⟩
  obtain ⟨more, rfl⟩ := hstart
  obtain ⟨close, _, htext⟩ := hquotes.text_eq
  have hfeed : ∀ c ∈ v, c = '\n' := by
    intro c hc
    have hmem : c ∈ lineEnd closed after := by
      rw [hsplit]
      exact List.mem_append_right _ hc
    rw [lineEnd] at hmem
    split at hmem
    · exact List.mem_singleton.mp hmem
    · cases hmem
  obtain ⟨c, v, rfl⟩ := List.exists_cons_of_ne_nil hv
  obtain ⟨rfl, _⟩ := List.cons.inj htext
  exact absurd (hfeed 'i' List.mem_cons_self) (by decide)

/-- On a line whose path is not relative nothing matches, unless names are imported from a relative
path later on. -/
theorem matchAt?_line_eq_none (hss : ∀ t ∈ s :: after, t.reaching = false)
    (hs : s.relative = false) {u v : List Char} (hsplit : s.line = u ++ v) (hv : v ≠ []) :
    fromStatement.matchAt? b o (v ++ (lineEnd closed after ++ text closed after)) = none := by
  refine matchAt?_eq_none fun lead path rest mark hquotes hlead => ?_
  have hwhole := hquotes.behind u
  rw [← List.append_assoc, ← hsplit, ← List.append_assoc] at hwhole
  obtain ⟨before, t, after', hcons, ht, rfl, hstart, rfl⟩ := eq_of_importLead _ hss hwhole hlead
  cases before with
  | nil =>
    obtain ⟨rfl, rfl⟩ := List.cons.inj hcons
    rw [hs] at ht
    cases ht
  | cons x before =>
    obtain ⟨rfl, rfl⟩ := List.cons.inj hcons
    have hlength := congrArg List.length hsplit
    rw [hstart, text] at hlength
    simp only [List.length_append] at hlength
    have hpos := List.length_pos_iff.mpr hv
    omega

/-- The search goes on behind the nearest statement that imports names from a relative path. -/
theorem findFrom_reaching {found : List Match} (hbefore : ∀ s ∈ before, s.reaching = false)
    (ht : t.reaching = true) : ∃ b' o' m, m.captures = [t.path]
      ∧ fromStatement.findFrom b o 0 found (text closed (before ++ t :: after))
        = fromStatement.findFrom b' o' 0 (m :: found) (text closed after) := by
  have htext : text closed (before ++ t :: after)
      = text true before ++ t.line ++ (lineEnd closed after ++ text closed after) := by
    rw [text_append, text]
    simp only [List.append_assoc]
  have hmatch : fromStatement.matchAt? b o (text closed (before ++ t :: after))
      = some ⟨o, o + (text true before ++ t.line).length, [t.path]⟩ :=
    matchAt?_reaching hbefore ht
  rw [htext] at hmatch
  obtain ⟨b', o', hnext⟩ := findFrom_lineEnd
  refine ⟨b', o', ⟨o, o + (text true before ++ t.line).length, [t.path]⟩, rfl, ?_⟩
  rw [htext, findFrom_of_match (by simp) hmatch rfl]
  exact hnext

/-- Where there is none, the search goes on behind the first line, and its path is found if it is
relative. -/
theorem findFrom_line {found : List Match} (hss : ∀ t ∈ s :: after, t.reaching = false) :
    ∃ b' o' ms, ms.map Match.captures = (if s.relative then [[s.path]] else [])
      ∧ fromStatement.findFrom b o 0 found (text closed (s :: after))
        = fromStatement.findFrom b' o' 0 (ms ++ found) (text closed after) := by
  cases hrelative : s.relative with
  | true =>
    have hmatch : fromStatement.matchAt? b o (text closed (s :: after))
        = some ⟨o, o + s.line.length, [s.path]⟩ := matchAt?_bare hrelative hss
    rw [text, List.append_assoc] at hmatch
    obtain ⟨b', o', hnext⟩ := findFrom_lineEnd
    refine ⟨b', o', [⟨o, o + s.line.length, [s.path]⟩], rfl, ?_⟩
    rw [text, List.append_assoc, findFrom_of_match line_ne_nil hmatch rfl]
    exact hnext
  | false =>
    obtain ⟨b', o', hnext⟩ := findFrom_lineEnd
    refine ⟨b', o', [], rfl, ?_⟩
    rw [text, List.append_assoc, findFrom_of_forall_none fun u v _ _ hsplit hv =>
      matchAt?_line_eq_none hss hrelative hsplit hv]
    exact hnext

theorem captures_findFrom (closed : Bool) (found : List Match) (ss : List StaticImport) :
    (fromStatement.findFrom b o 0 found (text closed ss)).map Match.captures
      = found.reverse.map Match.captures ++ (caught ss).map fun s => [s.path] := by
  induction hlength : ss.length using Nat.strongRecOn generalizing ss b o found with
  | _ n ih =>
  cases ss with
  | nil =>
    have hnone : fromStatement.matchAt? b o [] = none :=
      matchAt?_eq_none fun lead path rest mark hquotes _ => by
        obtain ⟨_, _, htext⟩ := hquotes.text_eq
        simp at htext
    simp [text, findFrom, hnone, caught]
  | cons s after =>
    cases hfind : (s :: after).find? reaching with
    | some t =>
      obtain ⟨ht, before, rest, hsplit, hbefore⟩ := List.find?_eq_some_iff_append.mp hfind
      have hbefore' : ∀ u ∈ before, u.reaching = false := by simpa using hbefore
      have hshort : rest.length < n := by
        rw [hsplit] at hlength
        simp at hlength
        omega
      obtain ⟨b', o', m, hm, hnext⟩ := findFrom_reaching hbefore' ht
      rw [hsplit, hnext, ih rest.length hshort _ rest rfl, caught_reaching hbefore' ht]
      simp [hm]
    | none =>
      have hss : ∀ t ∈ s :: after, t.reaching = false := by
        simpa using List.find?_eq_none.mp hfind
      have hshort : after.length < n := by rw [← hlength]; simp
      obtain ⟨b', o', ms, hms, hnext⟩ := findFrom_line hss
      rw [hnext, ih after.length hshort _ after rfl, caught_quiet hss, List.reverse_append,
        List.map_append, List.map_reverse (l := ms), hms]
      cases s.relative <;> simp

/-- The paths that `import` is found with are those of the caught statements, in their order. -/
theorem captures_fromStatement (closed : Bool) (ss : List StaticImport) :
    (fromStatement.findAll (text closed ss)).map Match.captures
      = (caught ss).map fun s => [s.path] :=
  captures_findFrom closed [] ss

theorem mem_caught_iff : s ∈ caught ss ↔ ∃ before after, ss = before ++ s :: after
    ∧ (s.reaching = true ∨ s.relative = true ∧ ∀ t ∈ after, t.reaching = false) := by
  induction ss with
  | nil => simp [caught]
  | cons u after ih =>
    have hguard : (u.reaching || u.relative && !after.any reaching) = true
        ↔ u.reaching = true ∨ u.relative = true ∧ ∀ t ∈ after, t.reaching = false := by
      simp
    constructor
    · intro h
      rw [caught] at h
      split at h
      · rename_i hcaught
        rcases List.mem_cons.mp h with rfl | h
        · exact ⟨[], after, rfl, hguard.mp hcaught⟩
        · obtain ⟨before, rest, rfl, hs⟩ := ih.mp h
          exact ⟨u :: before, rest, rfl, hs⟩
      · obtain ⟨before, rest, rfl, hs⟩ := ih.mp h
        exact ⟨u :: before, rest, rfl, hs⟩
    · rintro ⟨before, rest, hsplit, hs⟩
      rw [caught]
      cases before with
      | nil =>
        obtain ⟨rfl, rfl⟩ := List.cons.inj hsplit
        rw [if_pos (hguard.mpr hs)]
        exact List.mem_cons_self
      | cons v before =>
        obtain ⟨rfl, rfl⟩ := List.cons.inj hsplit
        have hmem := ih.mpr ⟨before, rest, rfl, hs⟩
        split
        · exact List.mem_cons_of_mem _ hmem
        · exact hmem

theorem not_mem_findAll_call {p : Pattern} {m : Match}
    (hp : ∀ cur e, e ∈ p.ends cur → ∃ lead path rest mark, Quotes cur.rest lead path rest mark
      ∧ EndsIn "(".toList lead
      ∧ e.captured.map Capture.chars = path :: cur.captured.map Capture.chars) :
    m ∉ p.findAll (text closed ss) := by
  intro hm
  obtain ⟨passed, lead, path, rest, mark, hquotes, hlead, _⟩ := quotes_of_mem_findAll hp hm
  obtain ⟨before, s, after, _, hhead, _⟩ := opening_of_quotes hquotes
  exact not_endsIn_parenthesis (hhead ▸ endsIn_append hlead passed)

/-- The paths found in a text of static imports. -/
theorem mem_literals_text {x : String} :
    x ∈ literals (text closed ss) ↔ ∃ s ∈ caught ss, x = String.ofList s.path := by
  have hfrom : (∃ m ∈ fromStatement.findAll (text closed ss), m.text 0 = x)
      ↔ ∃ s ∈ caught ss, x = String.ofList s.path := by
    have hcaptures : ∀ captures, captures ∈ (fromStatement.findAll (text closed ss)).map
        Match.captures ↔ ∃ s ∈ caught ss, [s.path] = captures := fun captures => by
      rw [captures_fromStatement, List.mem_map]
    constructor
    · rintro ⟨m, hm, rfl⟩
      obtain ⟨s, hs, heq⟩ := (hcaptures m.captures).mp (List.mem_map_of_mem hm)
      exact ⟨s, hs, by rw [Match.text, Match.capture, ← heq]; rfl⟩
    · rintro ⟨s, hs, rfl⟩
      obtain ⟨m, hm, heq⟩ := List.mem_map.mp ((hcaptures [s.path]).mpr ⟨s, hs, rfl⟩)
      exact ⟨m, hm, by rw [Match.text, Match.capture, heq]; rfl⟩
  rw [← hfrom]
  simp only [literals, patterns, List.mem_flatMap, List.mem_cons, List.not_mem_nil, or_false,
    List.mem_map]
  constructor
  · rintro ⟨p, rfl | rfl | rfl | rfl, m, hm, hx⟩
    · exact ⟨m, hm, hx⟩
    · exact absurd hm (not_mem_findAll_call fun _ _ => quotes_of_importCall)
    · exact absurd hm (not_mem_findAll_call fun _ _ => quotes_of_requireCall)
    · -- such a path is that of a statement that imports names, so it is found as one
      obtain ⟨passed, lead, path, rest, mark, hquotes, hlead, hcaptures⟩ :=
        quotes_of_mem_findAll (fun _ _ => quotes_of_exportFrom) hm
      obtain ⟨before, s, after, rfl, hhead, rfl⟩ := opening_of_quotes hquotes
      have hreaching : s.reaching = true := by
        rw [reaching, isSome_of_endsIn_from (hhead ▸ endsIn_append hlead passed), relative,
          hquotes.relative]
        rfl
      refine hfrom.mpr ⟨s, mem_caught_iff.mpr ⟨before, after, rfl, Or.inl hreaching⟩, ?_⟩
      rw [← hx, Match.text, Match.capture, hcaptures]
      rfl
  · rintro ⟨m, hm, hx⟩
    exact ⟨fromStatement, Or.inl rfl, m, hm, hx⟩

/-- In a text of static imports without semicolons the paths found are exactly those of the caught
statements. So every relative path is found, unless an import of a path alone is followed by one
that imports names from a relative path, and is not found elsewhere. -/
theorem literals_staticImports (closed : Bool) (ss : List StaticImport) :
    (∀ x, x ∈ literals (text closed ss) ↔ ∃ s ∈ caught ss, x = String.ofList s.path)
    ∧ ((∀ s ∈ ss, s.relative = true → String.ofList s.path ∈ literals (text closed ss))
      ↔ ∀ before s after, ss = before ++ s :: after → s.relative = true → s.clause = none →
        (∃ t ∈ after, t.reaching = true) → ∃ t ∈ caught ss, t.path = s.path) := by
  refine ⟨fun x => mem_literals_text, ?_, ?_⟩
  · rintro hall before s after rfl hs _ _
    obtain ⟨t, ht, hpath⟩ := mem_literals_text.mp (hall s (by simp) hs)
    exact ⟨t, ht, (String.ofList_injective hpath).symm⟩
  · intro hall s hs hrelative
    obtain ⟨before, after, rfl⟩ := List.append_of_mem hs
    refine mem_literals_text.mpr ?_
    by_cases hcaught : s.reaching = true ∨ s.relative = true ∧ ∀ t ∈ after, t.reaching = false
    · exact ⟨s, mem_caught_iff.mpr ⟨before, after, rfl, hcaught⟩, rfl⟩
    · have hclause : s.clause = none := by
        have hreaching := fun h => hcaught (Or.inl h)
        rw [reaching, hrelative, Bool.and_true] at hreaching
        simpa using hreaching
      have hlater : ∃ t ∈ after, t.reaching = true := by
        have hafter := fun h => hcaught (Or.inr ⟨hrelative, h⟩)
        simpa using hafter
      obtain ⟨t, ht, hpath⟩ := hall before s after rfl hrelative hclause hlater
      exact ⟨t, ht, by rw [hpath]⟩

/-- The path of the first line is passed over on the way to the `from` of the second. -/
theorem not_literals_sideEffect : ¬ ∀ (closed : Bool) (ss : List StaticImport), ∀ s ∈ ss,
    s.relative = true → String.ofList s.path ∈ literals (text closed ss) := by
  intro h
  let sideEffect : StaticImport :=
    ⟨none, '\'', "./a".toList, by decide, by decide, by decide, by decide⟩
  let named : StaticImport :=
    ⟨some ['x'], '\'', "./b".toList, by decide, by decide, by decide, by decide⟩
  have hmissed : String.ofList sideEffect.path ∉ literals (text false [sideEffect, named]) := by
    decide +kernel
  exact hmissed (h false [sideEffect, named] sideEffect (by simp) (by decide))

end Import

end RepoSurvey
