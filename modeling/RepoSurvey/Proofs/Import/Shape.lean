import RepoSurvey.Import.Literal
import RepoSurvey.Proofs.Pattern.Ends

/-!
# The shapes of imports

The text that a match of an import pattern covers, and what it captures.

* `Import.isRelative`: a path that starts in the directory of the file or in the one above;
* `Import.mem_ends_quotedPath`: the quoted path of an import;
* `Import.mem_ends_wordBlank`, `Import.mem_ends_braces`: what stands before it;
* `Import.quotes_of_fromStatement`, `Import.quotes_of_importCall`, `Import.quotes_of_requireCall`,
  `Import.quotes_of_exportFrom`: a match captures a quoted path, and what stands before the
  quotation mark tells the patterns apart;
* `Import.quotes_of_mem_findAll`: the same of all matches in a text.
-/

namespace RepoSurvey

/-- The characters that may enclose a path. -/
def Import.isMark (c : Char) : Bool := Pattern.quote.contains c

/-- A text without quotation marks, semicolons and line feeds. -/
def Inline (text : List Char) : Prop :=
  ∀ c ∈ text, Import.isMark c = false ∧ c ≠ ';' ∧ c ≠ '\n'

instance (text : List Char) : Decidable (Inline text) :=
  List.decidableBAll (fun c : Char => Import.isMark c = false ∧ c ≠ ';' ∧ c ≠ '\n') text

namespace Import

open Pattern

/-! ## Quotation marks -/

theorem noMark_of_inline {text : List Char} (h : Inline text) : ∀ c ∈ text, isMark c = false :=
  fun c hc => (h c hc).1

theorem isMark_iff {c : Char} : isMark c = true ↔ c = '\'' ∨ c = '"' ∨ c = '`' := by
  simp [isMark, quote, CharSet.oneOf]

theorem isBlank_of_isMark {c : Char} (h : isMark c = true) : Text.isBlank c = false := by
  rcases isMark_iff.mp h with rfl | rfl | rfl <;> decide

/-- The first of some characters in a text is the one at hand, or comes before it. -/
theorem eq_or_later_of_append {p : Char → Bool} {front tail lead rest : List Char} {q mark : Char}
    (hfront : ∀ c ∈ front, p c = false) (hmark : p mark = true)
    (h : front ++ q :: tail = lead ++ mark :: rest) :
    (lead = front ∧ mark = q ∧ rest = tail)
      ∨ ∃ more, lead = front ++ q :: more ∧ tail = more ++ mark :: rest := by
  rcases List.append_eq_append_iff.mp h with ⟨more, hlead, hq⟩ | ⟨more, hfront', hmark'⟩
  · cases more with
    | nil =>
      obtain ⟨rfl, rfl⟩ := List.cons.inj hq
      exact Or.inl ⟨by simpa using hlead, rfl, rfl⟩
    | cons d more =>
      obtain ⟨rfl, rfl⟩ := List.cons.inj hq
      exact Or.inr ⟨more, hlead, rfl⟩
  · cases more with
    | nil =>
      obtain ⟨rfl, rfl⟩ := List.cons.inj hmark'
      exact Or.inl ⟨by simpa using hfront'.symm, rfl, rfl⟩
    | cons d more =>
      obtain ⟨rfl, _⟩ := List.cons.inj hmark'
      have hno := hfront mark (by rw [hfront']; simp)
      rw [hmark] at hno
      cases hno

/-- The first quotation mark of a text is the one at hand, or comes before it. -/
theorem eq_or_later_of_append_mark {front tail lead rest : List Char} {q mark : Char}
    (hfront : ∀ c ∈ front, isMark c = false) (hmark : isMark mark = true)
    (h : front ++ q :: tail = lead ++ mark :: rest) :
    (lead = front ∧ mark = q ∧ rest = tail)
      ∨ ∃ more, lead = front ++ q :: more ∧ tail = more ++ mark :: rest :=
  eq_or_later_of_append hfront hmark h

/-- One or two dots, a slash, and at least one more character. -/
def isRelative (path : List Char) : Bool :=
  ("./".toList.isPrefixOf path && 2 < path.length)
    || ("../".toList.isPrefixOf path && 3 < path.length)

/-- A text that can stand between two quotation marks. -/
def Quotable (path : List Char) : Prop := ∀ c ∈ path, isMark c = false ∧ c ≠ '\n'

theorem isRelative_iff {path : List Char} : isRelative path = true
    ↔ ∃ dots more, path = dots ++ '/' :: more ∧ (dots = ['.'] ∨ dots = ['.', '.'])
      ∧ more ≠ [] := by
  rw [isRelative, Bool.or_eq_true]
  constructor
  · rintro (h | h)
    · obtain ⟨hdots, hlength⟩ := (Bool.and_eq_true _ _).mp h
      obtain ⟨more, rfl⟩ := List.isPrefixOf_iff_prefix.mp hdots
      exact ⟨['.'], more, rfl, Or.inl rfl, by rintro rfl; simp at hlength⟩
    · obtain ⟨hdots, hlength⟩ := (Bool.and_eq_true _ _).mp h
      obtain ⟨more, rfl⟩ := List.isPrefixOf_iff_prefix.mp hdots
      exact ⟨['.', '.'], more, rfl, Or.inr rfl, by rintro rfl; simp at hlength⟩
  · rintro ⟨dots, more, rfl, rfl | rfl, hmore⟩
    · refine Or.inl ?_
      have := List.length_pos_iff.mpr hmore
      simp
      omega
    · refine Or.inr ?_
      have := List.length_pos_iff.mpr hmore
      simp
      omega

theorem exists_cons_of_isRelative {path : List Char} (h : isRelative path = true) :
    ∃ rest, path = '.' :: rest := by
  obtain ⟨dots, more, rfl, rfl | rfl, _⟩ := isRelative_iff.mp h
  · exact ⟨_, rfl⟩
  · exact ⟨_, rfl⟩

theorem contains_noneOf_iff {c : Char} : (CharSet.noneOf "'\"`\n").contains c = true
    ↔ isMark c = false ∧ c ≠ '\n' := by
  simp [CharSet.noneOf, isMark, quote, CharSet.oneOf, and_assoc]

/-! ## The quoted path -/

variable {cur e : Cursor}

/-- The path between the quotation marks. -/
theorem mem_ends_path : e ∈ ends (seqs [.repeated (.single '.') 1 (some 2) .longest, "/",
      plus (.noneOf "'\"`\n")]) cur
    ↔ ∃ path rest, cur.rest = path ++ rest ∧ isRelative path = true ∧ Quotable path
      ∧ e = cur.after path rest := by
  constructor
  · intro h
    obtain ⟨first, hfirst, h⟩ := mem_ends_seqs_cons.mp h
    obtain ⟨second, hsecond, h⟩ := mem_ends_seqs_cons.mp h
    obtain ⟨dots, rest, hrest, hdots, hleast, hmost, rfl⟩ := mem_ends_repeated.mp hfirst
    obtain ⟨rest, hslash, rfl⟩ := mem_ends_literal.mp hsecond
    obtain ⟨more, rest, hmore, hall, hne, rfl⟩ := mem_ends_plus.mp h
    rw [Cursor.after_rest] at hslash hmore
    have htwo : dots.length ≤ 2 := hmost 2 rfl
    have hall' : ∀ c ∈ dots, c = '.' := fun c hc => by simpa [CharSet.single] using hdots c hc
    have hshape : dots = ['.'] ∨ dots = ['.', '.'] := by
      have hreplicate := List.eq_replicate_of_mem hall'
      have hlength : dots.length = 1 ∨ dots.length = 2 := by omega
      rcases hlength with h | h
      · exact Or.inl (by rw [hreplicate, h]; rfl)
      · exact Or.inr (by rw [hreplicate, h]; rfl)
    refine ⟨dots ++ '/' :: more, rest, ?_, ?_, ?_, ?_⟩
    · rw [hrest, hslash, hmore]
      simp
    · exact isRelative_iff.mpr ⟨dots, more, rfl, hshape, hne⟩
    · intro c hc
      rcases List.mem_append.mp hc with hc | hc
      · rw [hall' c hc]
        decide
      · rcases List.mem_cons.mp hc with rfl | hc
        · decide
        · exact contains_noneOf_iff.mp (hall c hc)
    · rw [Cursor.after_after, Cursor.after_after]
      simp
  · rintro ⟨path, rest, hrest, hrelative, hquotable, rfl⟩
    obtain ⟨dots, more, rfl, hdots, hne⟩ := isRelative_iff.mp hrelative
    rw [List.append_assoc] at hrest
    refine mem_ends_seqs_cons.mpr ⟨cur.after dots ('/' :: more ++ rest), ?_, ?_⟩
    · refine mem_ends_repeated.mpr ⟨dots, _, hrest, ?_, ?_, ?_, rfl⟩
      · rcases hdots with rfl | rfl <;> simp [CharSet.single]
      · rcases hdots with rfl | rfl <;> simp
      · rcases hdots with rfl | rfl <;> simp [Within]
    · refine mem_ends_seqs_cons.mpr ⟨cur.after (dots ++ ['/']) (more ++ rest), ?_, ?_⟩
      · exact mem_ends_literal.mpr ⟨more ++ rest, rfl, by rw [Cursor.after_after]; rfl⟩
      · refine mem_ends_plus.mpr ⟨more, rest, rfl, fun c hc => ?_, hne, ?_⟩
        · exact contains_noneOf_iff.mpr (hquotable c (by simp [hc]))
        · rw [Cursor.after_after]
          simp

theorem mem_ends_quotedPath : e ∈ ends quotedPath cur
    ↔ ∃ mark path close rest, isMark mark = true ∧ isMark close = true ∧ isRelative path = true
      ∧ Quotable path ∧ cur.rest = mark :: (path ++ close :: rest)
      ∧ e = (cur.after (mark :: (path ++ [close])) rest).capture (path ++ close :: rest)
        path.length := by
  rw [quotedPath]
  constructor
  · intro h
    obtain ⟨first, hfirst, h⟩ := mem_ends_seqs_cons.mp h
    obtain ⟨second, hsecond, h⟩ := mem_ends_seqs_cons.mp h
    obtain ⟨mark, rest, hrest, hmark, rfl⟩ := mem_ends_one.mp hfirst
    obtain ⟨inner, hinner, rfl⟩ := mem_ends_capture.mp hsecond
    obtain ⟨path, left, hleft, hrelative, hquotable, rfl⟩ := mem_ends_path.mp hinner
    obtain ⟨close, last, hlast, hclose, rfl⟩ := mem_ends_one.mp h
    have hsame : left = close :: last := hlast
    rw [Cursor.after_rest] at hleft
    rw [hsame] at hleft
    refine ⟨mark, path, close, last, hmark, hclose, hrelative, hquotable, by rw [hrest, hleft], ?_⟩
    have hlength : cur.offset + ([mark] ++ path).length - (cur.offset + [mark].length)
        = path.length := by
      simp only [List.length_append, List.length_singleton]
      omega
    rw [Cursor.after_after, hsame, Cursor.after_rest, hleft, Cursor.after_offset,
      Cursor.after_offset, hlength, Cursor.capture_after, Cursor.after_after]
    rfl
  · rintro ⟨mark, path, close, rest, hmark, hclose, hrelative, hquotable, hrest, rfl⟩
    refine mem_ends_seqs_cons.mpr ⟨cur.after [mark] (path ++ close :: rest), ?_, ?_⟩
    · exact mem_ends_one.mpr ⟨mark, _, hrest, hmark, rfl⟩
    · refine mem_ends_seqs_cons.mpr ⟨((cur.after (mark :: path) (close :: rest)).capture
        (path ++ close :: rest) path.length), ?_, ?_⟩
      · refine mem_ends_capture.mpr ⟨cur.after (mark :: path) (close :: rest), ?_, ?_⟩
        · refine mem_ends_path.mpr ⟨path, close :: rest, rfl, hrelative, hquotable, ?_⟩
          rw [Cursor.after_after]
          rfl
        · have hlength : cur.offset + (path.length + 1) - (cur.offset + 1) = path.length := by
            omega
          simp [hlength]
      · refine mem_ends_one.mpr ⟨close, rest, rfl, hclose, ?_⟩
        rw [Cursor.capture_after, Cursor.after_after]
        rfl

/-! ## Matches -/

/-- A text that starts with `lead` and a quoted relative path. -/
structure Quotes (text lead path rest : List Char) (mark : Char) : Prop where
  isMark : isMark mark = true
  relative : isRelative path = true
  quotable : Quotable path
  text_eq : ∃ close, Import.isMark close = true ∧ text = lead ++ mark :: (path ++ close :: rest)

theorem Quotes.behind {text lead path rest : List Char} {mark : Char}
    (h : Quotes text lead path rest mark) (front : List Char) :
    Quotes (front ++ text) (front ++ lead) path rest mark := by
  obtain ⟨close, hclose, htext⟩ := h.text_eq
  exact ⟨h.isMark, h.relative, h.quotable, close, hclose, by rw [htext, List.append_assoc]⟩

/-- A word and blanks at the end of a text. -/
def EndsIn (word lead : List Char) : Prop :=
  ∃ front gap, lead = front ++ word ++ gap ∧ ∀ c ∈ gap, Text.isBlank c = true

/-- A quoted path behind some text, in which nothing was captured. -/
theorem quotes_of_mem_ends {lead text : List Char}
    (he : e ∈ ends quotedPath (cur.after lead text)) (hrest : cur.rest = lead ++ text) :
    ∃ path rest mark, Quotes cur.rest lead path rest mark
      ∧ e.offset = cur.offset + lead.length + path.length + 2
      ∧ e.captured.map Capture.chars = path :: cur.captured.map Capture.chars := by
  obtain ⟨mark, path, close, rest, hmark, hclose, hrelative, hquotable, htext, rfl⟩ :=
    mem_ends_quotedPath.mp he
  rw [Cursor.after_rest] at htext
  refine ⟨path, rest, mark, ⟨hmark, hrelative, hquotable, close, hclose, ?_⟩, ?_, ?_⟩
  · rw [hrest, htext]
  · simp [Cursor.capture, Nat.add_assoc]
  · simp [Cursor.capture, Capture.chars]

theorem isBlank_of_mem_space : ∀ b ∈ [' '], Text.isBlank b = true :=
  List.forall_mem_singleton.mpr rfl

theorem not_blank_next {c : Char} (hc : Text.isBlank c = false) (rest : List Char) :
    ∀ d, (c :: rest).head? = some d → Text.isBlank d = false := by
  intro d hd
  rwa [← Option.some.inj hd]

/-- A space is all that is taken where no second blank follows. -/
theorem mem_ends_space {rest : List Char} (hrest : cur.rest = ' ' :: rest)
    (hstop : ∀ c, rest.head? = some c → Text.isBlank c = false) :
    e ∈ ends blanks1 cur ↔ e = cur.after [' '] rest := by
  rw [mem_ends_blanks1]
  constructor
  · rintro ⟨gap, last, hlast, hgap, hne, rfl⟩
    rw [hrest] at hlast
    match gap, hne with
    | [d], _ =>
      obtain ⟨rfl, rfl⟩ := List.cons.inj hlast
      rfl
    | d :: b :: gap, _ =>
      obtain ⟨rfl, rfl⟩ := List.cons.inj hlast
      have hblank := hgap b (by simp)
      rw [hstop b rfl] at hblank
      cases hblank
  · rintro rfl
    exact ⟨[' '], rest, hrest, isBlank_of_mem_space, by simp, rfl⟩

/-- A word and the blank behind it, where no second blank follows. -/
theorem mem_ends_wordBlank (word : String) {more : List Char} {c : Char}
    (hrest : cur.rest = word.toList ++ ' ' :: c :: more) (hc : Text.isBlank c = false) :
    e ∈ ends (seqs [literal word, blanks1]) cur
      ↔ e = cur.after (word.toList ++ [' ']) (c :: more) := by
  rw [mem_ends_seqs_cons_of_unique fun m => mem_ends_literal_of_eq hrest, seqs,
    mem_ends_space rfl (not_blank_next hc more), Cursor.after_after]

theorem mem_ends_everything {rest : List Char} (hrest : cur.rest = '*' :: rest) :
    e ∈ ends exportedNames cur ↔ e = cur.after ['*'] rest := by
  have hstar : e ∈ ends (literal "*") cur ↔ e = cur.after ['*'] rest := mem_ends_literal_of_eq hrest
  constructor
  · intro he
    rcases mem_ends_alt.mp he with he | he
    · exact hstar.mp he
    · obtain ⟨first, hfirst, _⟩ := mem_ends_seqs_cons.mp he
      obtain ⟨left, hleft, _⟩ := mem_ends_literal.mp hfirst
      rw [hrest] at hleft
      cases hleft
  · exact fun he => mem_ends_alt.mpr (Or.inl (hstar.mpr he))

/-- Names in braces end at the first closing brace. -/
theorem mem_ends_braces {inner rest : List Char} (hinner : '}' ∉ inner)
    (hrest : cur.rest = '{' :: (inner ++ '}' :: rest)) :
    e ∈ ends exportedNames cur ↔ e = cur.after ('{' :: (inner ++ ['}'])) rest := by
  have hopen : ∀ c ∈ inner, (c == '}') = false := by
    intro c hc
    simpa using fun heq : c = '}' => hinner (heq ▸ hc)
  have hall : ∀ c ∈ inner, (CharSet.noneOf "\x7d").contains c = true := by
    intro c hc
    simpa [CharSet.noneOf] using hopen c hc
  constructor
  · intro he
    rcases mem_ends_alt.mp he with he | he
    · obtain ⟨left, hleft, _⟩ := mem_ends_literal.mp he
      rw [hrest] at hleft
      cases hleft
    · obtain ⟨first, hfirst, he⟩ := mem_ends_seqs_cons.mp he
      obtain ⟨second, hsecond, he⟩ := mem_ends_seqs_cons.mp he
      obtain ⟨left, hleft, rfl⟩ := mem_ends_literal.mp hfirst
      obtain ⟨passed, behind, hpassed, hpass, rfl⟩ := mem_ends_star.mp hsecond
      obtain ⟨last, hlast, rfl⟩ := mem_ends_literal.mp he
      rw [hrest] at hleft
      have hcut : inner ++ '}' :: rest = passed ++ '}' :: last := by
        rw [Cursor.after_rest] at hpassed hlast
        rw [(List.cons.inj hleft).2, hpassed, hlast]
        rfl
      rcases eq_or_later_of_append (p := (· == '}')) hopen (by decide) hcut with
        ⟨rfl, _, rfl⟩ | ⟨more, rfl, _⟩
      · rw [Cursor.after_after, Cursor.after_after]
        rfl
      · exact absurd (hpass '}' (by simp)) (by decide)
  · rintro rfl
    have hcovers : (seqs ["\x7b", star (.noneOf "\x7d"), "\x7d"]).Covers
        ("\x7b".toList ++ (inner ++ "\x7d".toList)) :=
      (covers_literal "\x7b").cons ((covers_repeated hall (Nat.zero_le _)).cons
        (covers_literal "\x7d"))
    refine (Covers.alt_right hcovers) cur rest ?_
    rw [hrest]
    simp

theorem endsIn_append {word lead : List Char} (h : EndsIn word lead) (front : List Char) :
    EndsIn word (front ++ lead) := by
  obtain ⟨start, gap, rfl, hgap⟩ := h
  exact ⟨front ++ start, gap, by simp, hgap⟩

/-- A word between blanks, as `from` stands in an import. -/
theorem mem_ends_between {word : String} :
    e ∈ ends (seqs [blanks1, literal word, blanks1]) cur ↔ ∃ gap gap' rest,
      cur.rest = gap ++ word.toList ++ gap' ++ rest ∧ (∀ c ∈ gap, Text.isBlank c = true)
      ∧ gap ≠ [] ∧ (∀ c ∈ gap', Text.isBlank c = true) ∧ gap' ≠ []
      ∧ e = cur.after (gap ++ word.toList ++ gap') rest := by
  constructor
  · intro h
    obtain ⟨first, hfirst, h⟩ := mem_ends_seqs_cons.mp h
    obtain ⟨second, hsecond, h⟩ := mem_ends_seqs_cons.mp h
    obtain ⟨gap, rest, hrest, hgap, hne, rfl⟩ := mem_ends_blanks1.mp hfirst
    obtain ⟨rest, hword, rfl⟩ := mem_ends_literal.mp hsecond
    obtain ⟨gap', rest, hgap', hblank, hne', rfl⟩ := mem_ends_blanks1.mp h
    rw [Cursor.after_rest] at hword hgap'
    refine ⟨gap, gap', rest, ?_, hgap, hne, hblank, hne', ?_⟩
    · rw [hrest, hword, hgap']
      simp
    · rw [Cursor.after_after, Cursor.after_after, List.append_assoc]
  · rintro ⟨gap, gap', rest, hrest, hgap, hne, hgap', hne', rfl⟩
    rw [List.append_assoc, List.append_assoc] at hrest
    refine mem_ends_seqs_cons.mpr ⟨_, mem_ends_blanks1.mpr ⟨gap, _, hrest, hgap, hne, rfl⟩, ?_⟩
    refine mem_ends_seqs_cons.mpr ⟨_, mem_ends_literal.mpr ⟨gap' ++ rest, rfl, rfl⟩, ?_⟩
    refine mem_ends_blanks1.mpr ⟨gap', rest, rfl, hgap', hne', ?_⟩
    rw [Cursor.after_after, Cursor.after_after, List.append_assoc]

/-- What stands before the path that `import` is followed by. -/
inductive ImportLead : List Char → Prop
  | bare {gap : List Char} : (∀ c ∈ gap, Text.isBlank c = true) → gap ≠ [] →
      ImportLead ("import".toList ++ gap)
  | from {gap clause tail : List Char} : (∀ c ∈ gap, Text.isBlank c = true) → gap ≠ [] →
      EndsIn "from".toList tail → ImportLead ("import".toList ++ gap ++ clause ++ tail)

theorem quotes_of_fromStatement (he : e ∈ ends fromStatement cur) :
    ∃ lead path rest mark, Quotes cur.rest lead path rest mark ∧ ImportLead lead
      ∧ e.offset = cur.offset + lead.length + path.length + 2
      ∧ e.captured.map Capture.chars = path :: cur.captured.map Capture.chars := by
  rw [fromStatement] at he
  obtain ⟨first, hfirst, h⟩ := mem_ends_seqs_cons.mp he
  obtain ⟨second, hsecond, h⟩ := mem_ends_seqs_cons.mp h
  obtain ⟨third, hthird, hpath⟩ := mem_ends_seqs_cons.mp h
  obtain ⟨rest, hrest, rfl⟩ := mem_ends_literal.mp hfirst
  obtain ⟨gap, text, htext, hgap, hne, rfl⟩ := mem_ends_blanks1.mp hsecond
  rw [Cursor.after_rest] at htext
  rw [htext, ← List.append_assoc] at hrest
  rw [Cursor.after_after] at hthird
  rcases mem_ends_alt.mp hthird with hthird | hthird
  · obtain ⟨fourth, hfourth, hthird⟩ := mem_ends_seqs_cons.mp hthird
    obtain ⟨clause, left, hleft, _, _, _, rfl⟩ := mem_ends_repeated.mp hfourth
    obtain ⟨gap', gap'', last, hlast, _, _, hgap'', _, rfl⟩ := mem_ends_between.mp hthird
    rw [Cursor.after_rest] at hleft hlast
    rw [Cursor.after_after, Cursor.after_after] at hpath
    have hwhole : cur.rest
        = ("import".toList ++ gap ++ (clause ++ (gap' ++ "from".toList ++ gap''))) ++ last := by
      rw [hrest, hleft, hlast]
      simp
    obtain ⟨path, rest, mark, hquotes, hoffset, hcaptured⟩ := quotes_of_mem_ends hpath hwhole
    refine ⟨_, path, rest, mark, hquotes, ?_, hoffset, hcaptured⟩
    rw [← List.append_assoc]
    exact .from hgap hne ⟨gap', gap'', rfl, hgap''⟩
  · rw [mem_ends_empty.mp hthird] at hpath
    obtain ⟨path, rest, mark, hquotes, hoffset, hcaptured⟩ := quotes_of_mem_ends hpath hrest
    exact ⟨_, path, rest, mark, hquotes, .bare hgap hne, hoffset, hcaptured⟩

/-- A quoted path behind an opening parenthesis. -/
theorem quotes_of_parenthesis (front ps : List Pattern)
    (hfront : (seqs front).capturesNothing = true)
    (he : e ∈ ends (seqs (front ++ literal "(" :: blanks :: quotedPath :: ps)) cur) :
    ∃ next lead path rest mark, e ∈ ends (seqs ps) next
      ∧ Quotes cur.rest lead path rest mark ∧ EndsIn "(".toList lead
      ∧ next.captured.map Capture.chars = path :: cur.captured.map Capture.chars := by
  obtain ⟨first, hfirst, h⟩ := (mem_ends_seqs_append _ _).mp he
  obtain ⟨second, hsecond, h⟩ := mem_ends_seqs_cons.mp h
  obtain ⟨third, hthird, h⟩ := mem_ends_seqs_cons.mp h
  obtain ⟨next, hnext, hend⟩ := mem_ends_seqs_cons.mp h
  obtain ⟨start, text, htext, rfl⟩ := exists_after_of_mem_ends hfront hfirst
  obtain ⟨rest, hrest, rfl⟩ := mem_ends_literal.mp hsecond
  obtain ⟨gap, last, hlast, hgap, rfl⟩ := mem_ends_blanks.mp hthird
  rw [Cursor.after_rest] at hrest hlast
  rw [Cursor.after_after, Cursor.after_after, ← List.append_assoc] at hnext
  have hwhole : cur.rest = (start ++ "(".toList ++ gap) ++ last := by
    rw [htext, hrest, hlast]
    simp
  obtain ⟨path, rest, mark, hquotes, _, hcaptured⟩ := quotes_of_mem_ends hnext hwhole
  exact ⟨next, _, path, rest, mark, hend, hquotes, ⟨start, gap, rfl, hgap⟩, hcaptured⟩

theorem quotes_of_importCall (he : e ∈ ends importCall cur) :
    ∃ lead path rest mark, Quotes cur.rest lead path rest mark ∧ EndsIn "(".toList lead
      ∧ e.captured.map Capture.chars = path :: cur.captured.map Capture.chars := by
  obtain ⟨next, lead, path, rest, mark, hend, hquotes, hlead, hcaptured⟩ :=
    quotes_of_parenthesis ["import", blanks] [] (by decide) he
  rw [mem_ends_empty.mp hend]
  exact ⟨lead, path, rest, mark, hquotes, hlead, hcaptured⟩

theorem quotes_of_requireCall (he : e ∈ ends requireCall cur) :
    ∃ lead path rest mark, Quotes cur.rest lead path rest mark ∧ EndsIn "(".toList lead
      ∧ e.captured.map Capture.chars = path :: cur.captured.map Capture.chars := by
  obtain ⟨next, lead, path, rest, mark, hend, hquotes, hlead, hcaptured⟩ :=
    quotes_of_parenthesis ["require", blanks] [blanks, ")"] (by decide) he
  obtain ⟨_, _, _, rfl⟩ := exists_after_of_mem_ends (by decide) hend
  exact ⟨lead, path, rest, mark, hquotes, hlead, hcaptured⟩

theorem quotes_of_exportFrom (he : e ∈ ends exportFrom cur) :
    ∃ lead path rest mark, Quotes cur.rest lead path rest mark ∧ EndsIn "from".toList lead
      ∧ e.captured.map Capture.chars = path :: cur.captured.map Capture.chars := by
  obtain ⟨first, hfirst, h⟩ := (mem_ends_seqs_append ["export", blanks1, exportedNames]
    [blanks1, "from", blanks1, quotedPath]).mp he
  obtain ⟨second, hsecond, hpath⟩ :=
    (mem_ends_seqs_append [blanks1, "from", blanks1] [quotedPath]).mp h
  obtain ⟨start, text, htext, rfl⟩ := exists_after_of_mem_ends (by decide) hfirst
  obtain ⟨gap, gap', last, hlast, _, _, hgap', _, rfl⟩ := mem_ends_between.mp hsecond
  rw [Cursor.after_rest] at hlast
  rw [Cursor.after_after] at hpath
  have hwhole : cur.rest = (start ++ (gap ++ "from".toList ++ gap')) ++ last := by
    rw [htext, hlast]
    simp
  obtain ⟨path, rest, mark, hquotes, _, hcaptured⟩ := quotes_of_mem_ends hpath hwhole
  refine ⟨_, path, rest, mark, hquotes, endsIn_append ⟨gap, gap', rfl, hgap'⟩ start, hcaptured⟩

/-- Every match in a text captures one path, which is quoted somewhere in the text. -/
theorem quotes_of_mem_findAll {p : Pattern} {front : List Char → Prop}
    (hp : ∀ cur e, e ∈ p.ends cur → ∃ lead path rest mark, Quotes cur.rest lead path rest mark
      ∧ front lead ∧ e.captured.map Capture.chars = path :: cur.captured.map Capture.chars)
    {text : List Char} {m : Match} (hm : m ∈ p.findAll text) :
    ∃ passed lead path rest mark, Quotes text (passed ++ lead) path rest mark ∧ front lead
      ∧ m.captures = [path] := by
  obtain ⟨passed, left, before, rfl, hmatch⟩ := exists_of_mem_findAll hm
  obtain ⟨e, he, rfl⟩ := exists_of_matchAt? hmatch
  obtain ⟨lead, path, rest, mark, hquotes, hlead, hcaptured⟩ := hp _ e he
  refine ⟨passed, lead, path, rest, mark, hquotes.behind passed, hlead, ?_⟩
  rw [List.map_reverse, hcaptured]
  rfl

end Import

end RepoSurvey
