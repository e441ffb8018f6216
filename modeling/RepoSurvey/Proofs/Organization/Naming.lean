import RepoSurvey.Organization.Naming
import RepoSurvey.Proofs.Path.Segments
import RepoSurvey.Proofs.Traversal
import RepoSurvey.Text.Word

/-!
# Names that are written in a convention

Words can be put together in five ways, one for each convention, and the convention is told from the
name that they make.

* `Convention.Word`, `Convention.render`: words, and the name that they make in a convention;
* `Convention.Tells`: a name in which the convention shows;
* `Convention.strict?_render`: the convention of such a name;
* `Convention.ofFileName?_fileName`: extensions and a dot in front do not matter;
* `Convention.answer_fileName`: the convention of a file.
-/

namespace RepoSurvey.Convention

/-! ## Words -/

/-- A lower-case letter of ASCII, with any lower-case letters and digits behind it. -/
structure Word where
  first : Char
  rest : List Char
  isLower_first : first.isLower = true
  all_rest : ∀ c ∈ rest, c.isLower = true ∨ c.isDigit = true

namespace Word

def chars (w : Word) : List Char := w.first :: w.rest

def capitalized (w : Word) : List Char := w.first.toUpper :: w.rest

def upper (w : Word) : List Char := w.chars.map Char.toUpper

end Word

/-- The name that words make. In camel case the first word is not capitalized. -/
def render : Convention → List Word → List Char
  | .kebabCase, words => ['-'].intercalate (words.map Word.chars)
  | .snakeCase, words => ['_'].intercalate (words.map Word.chars)
  | .camelCase, words =>
    (words.take 1).flatMap Word.chars ++ (words.drop 1).flatMap Word.capitalized
  | .pascalCase, words => words.flatMap Word.capitalized
  | .screamingSnake, words => ['_'].intercalate (words.map Word.upper)

/-- The convention shows in the name: there is a separator, or a lower-case letter or a single
character, or more than one capital. -/
def Tells : Convention → List Word → Prop
  | .kebabCase, words => 2 ≤ words.length
  | .snakeCase, words => 2 ≤ words.length
  | .camelCase, _ => True
  | .pascalCase, words => (∃ c ∈ render .pascalCase words, c.isLower = true)
      ∨ (render .pascalCase words).length = 1
  | .screamingSnake, words => 2 ≤ (render .screamingSnake words).length

/-! ## Characters -/

variable {c separator : Char}

theorem isLowerOrDigit_iff : isLowerOrDigit c = true ↔ c.isLower = true ∨ c.isDigit = true := by
  simp [isLowerOrDigit]

theorem isAlphanum_eq (c : Char) : c.isAlphanum = (c.isUpper || c.isLower || c.isDigit) := rfl

theorem isAlphanum_of_isLowerOrDigit (h : isLowerOrDigit c = true) : c.isAlphanum = true := by
  rcases isLowerOrDigit_iff.mp h with h | h <;> simp [isAlphanum_eq, h]

/-- What becomes of lower-case letters and digits in capitals. -/
theorem of_isLowerOrDigit (h : isLowerOrDigit c = true) : isCapitalChar c.toUpper = true
    ∧ (c.isLower = true → isCapitalChar c = false ∧ c.toUpper.isUpper = true) := by
  have hall : ∀ n < 128, isLowerOrDigit (Char.ofNat n) = true →
      isCapitalChar (Char.ofNat n).toUpper = true ∧ ((Char.ofNat n).isLower = true →
        isCapitalChar (Char.ofNat n) = false ∧ (Char.ofNat n).toUpper.isUpper = true) := by
    decide +kernel
  have hc := hall c.toNat (Text.toNat_lt_of_isAlphanum (isAlphanum_of_isLowerOrDigit h))
  rw [Char.ofNat_toNat] at hc
  exact hc h

theorem isCapitalChar_of_isLower (h : c.isLower = true) : isCapitalChar c = false :=
  ((of_isLowerOrDigit (isLowerOrDigit_iff.mpr (Or.inl h))).2 h).1

theorem isUpper_of_isLower (h : c.isLower = true) : c.isUpper = false := by
  have hcapital := isCapitalChar_of_isLower h
  simp only [isCapitalChar, Bool.or_eq_false_iff] at hcapital
  exact hcapital.1.1

theorem isUpper_toUpper (h : c.isLower = true) : c.toUpper.isUpper = true :=
  ((of_isLowerOrDigit (isLowerOrDigit_iff.mpr (Or.inl h))).2 h).2

/-- The characters of names: letters, digits, and the two separators. -/
def isNameChar (c : Char) : Bool := c.isAlphanum || c == '-' || c == '_'

theorem isNameChar_of_isAlphanum (h : c.isAlphanum = true) : isNameChar c = true := by
  simp [isNameChar, h]

theorem isNameChar_of_isCapitalChar (h : isCapitalChar c = true) : isNameChar c = true := by
  simp only [isCapitalChar, Bool.or_eq_true] at h
  rcases h with (h | h) | h <;> simp [isNameChar, isAlphanum_eq, h]

theorem not_mem_of_isNameChar {name : List Char} (h : ∀ c ∈ name, isNameChar c = true)
    (hc : isNameChar c = false) : c ∉ name := by
  intro hmem
  rw [h c hmem] at hc
  cases hc

namespace Word

theorem isLowerOrDigit_of_mem {w : Word} : ∀ c ∈ w.rest, isLowerOrDigit c = true :=
  fun c hc => isLowerOrDigit_iff.mpr (w.all_rest c hc)

theorem isLowerOrDigit_of_mem_chars {w : Word} : ∀ c ∈ w.chars, isLowerOrDigit c = true :=
  List.forall_mem_cons.mpr ⟨isLowerOrDigit_iff.mpr (Or.inl w.isLower_first), isLowerOrDigit_of_mem⟩

theorem isAlphanum_of_mem_chars {w : Word} : ∀ c ∈ w.chars, c.isAlphanum = true :=
  fun c hc => isAlphanum_of_isLowerOrDigit (isLowerOrDigit_of_mem_chars c hc)

theorem isUpper_first (w : Word) : w.first.toUpper.isUpper = true := isUpper_toUpper w.isLower_first

theorem isAlphanum_of_mem_capitalized {w : Word} : ∀ c ∈ w.capitalized, c.isAlphanum = true := by
  refine List.forall_mem_cons.mpr ⟨?_, fun c hc => ?_⟩
  · simp [isAlphanum_eq, w.isUpper_first]
  · exact isAlphanum_of_isLowerOrDigit (isLowerOrDigit_of_mem c hc)

theorem isCapitalChar_of_mem_upper {w : Word} : ∀ c ∈ w.upper, isCapitalChar c = true :=
  List.forall_mem_map.mpr fun c hc => (of_isLowerOrDigit (isLowerOrDigit_of_mem_chars c hc)).1

end Word

/-! ## Words with a separator between them -/

theorem intercalate_cons (separator : Char) (piece : List Char) (pieces : List (List Char)) :
    [separator].intercalate (piece :: pieces) = piece ++ pieces.flatMap (separator :: ·) := by
  induction pieces generalizing piece with
  | nil => simp
  | cons next pieces ih => rw [List.intercalate_cons_cons, ih]; simp

theorem forall_mem_intercalate {p : Char → Prop} {pieces : List (List Char)} (hsep : p separator)
    (h : ∀ piece ∈ pieces, ∀ c ∈ piece, p c) : ∀ c ∈ [separator].intercalate pieces, p c := by
  cases pieces with
  | nil => simp
  | cons piece pieces =>
    obtain ⟨hpiece, hpieces⟩ := List.forall_mem_cons.mp h
    rw [intercalate_cons]
    refine List.forall_mem_append.mpr ⟨hpiece, fun c hc => ?_⟩
    obtain ⟨next, hnext, hc⟩ := List.mem_flatMap.mp hc
    rcases List.mem_cons.mp hc with rfl | hc
    · exact hsep
    · exact hpieces next hnext c hc

/-- Two or more words with a separator between them are taken for what they are. -/
theorem isSeparated_intercalate (hsep : separator.isAlphanum = false) (w v : Word)
    (words : List Word) :
    isSeparated separator ([separator].intercalate ((w :: v :: words).map Word.chars)) = true := by
  have hfree : ∀ piece ∈ (w :: v :: words).map Word.chars, separator ∉ piece := by
    refine List.forall_mem_map.mpr fun u _ hmem => ?_
    rw [Word.isAlphanum_of_mem_chars separator hmem] at hsep
    cases hsep
  have hsplit : Text.splitAtEvery (· == separator)
      ([separator].intercalate ((w :: v :: words).map Word.chars))
        = (w :: v :: words).map Word.chars := by
    rw [Text.splitAtEvery_eq_splitOnP, ← List.splitOn_eq_splitOnP]
    exact List.splitOn_intercalate separator hfree (by simp)
  have hall : ∀ u : Word, u.chars.all isLowerOrDigit = true :=
    fun u => List.all_eq_true.mpr Word.isLowerOrDigit_of_mem_chars
  have hrest : w.rest.all isLowerOrDigit = true := List.all_eq_true.mpr Word.isLowerOrDigit_of_mem
  have hchars : ∀ u : Word, u.chars.isEmpty = false := fun _ => rfl
  have hbehind : ((v :: words).map Word.chars).all
      (fun piece => !piece.isEmpty && piece.all isLowerOrDigit) = true :=
    List.all_eq_true.mpr (List.forall_mem_map.mpr fun u _ => by simp [hchars u, hall u])
  rw [isSeparated, hsplit]
  show (w.first.isLower && w.rest.all isLowerOrDigit && true && _) = true
  rw [w.isLower_first, hrest]
  exact hbehind

/-- A name without the separator is not taken for words with separators between them. -/
theorem isSeparated_of_not_mem {name : List Char} (h : separator ∉ name) :
    isSeparated separator name = false := by
  have hsplit : Text.splitAtEvery (· == separator) name = [name] := by
    rw [Text.splitAtEvery_eq_splitOnP]
    refine List.splitOnP_eq_singleton fun c hc => ?_
    simpa using fun heq : c = separator => h (heq ▸ hc)
  rw [isSeparated, hsplit]
  cases name <;> simp

/-! ## The convention of a name -/

variable {words : List Word}

theorem render_ne_nil (hne : words ≠ []) (c : Convention) : render c words ≠ [] := by
  obtain ⟨w, words, rfl⟩ := List.exists_cons_of_ne_nil hne
  cases c <;> simp [render, intercalate_cons, Word.chars, Word.capitalized, Word.upper]

theorem isNameChar_of_mem_render (c : Convention) :
    ∀ x ∈ render c words, isNameChar x = true := by
  have hchars : ∀ w : Word, ∀ x ∈ w.chars, isNameChar x = true :=
    fun w x hx => isNameChar_of_isAlphanum (Word.isAlphanum_of_mem_chars x hx)
  have hcapitalized : ∀ w : Word, ∀ x ∈ w.capitalized, isNameChar x = true :=
    fun w x hx => isNameChar_of_isAlphanum (Word.isAlphanum_of_mem_capitalized x hx)
  have hupper : ∀ w : Word, ∀ x ∈ w.upper, isNameChar x = true :=
    fun w x hx => isNameChar_of_isCapitalChar (Word.isCapitalChar_of_mem_upper x hx)
  cases c with
  | kebabCase =>
    exact forall_mem_intercalate rfl (List.forall_mem_map.mpr fun w _ => hchars w)
  | snakeCase =>
    exact forall_mem_intercalate rfl (List.forall_mem_map.mpr fun w _ => hchars w)
  | camelCase =>
    refine List.forall_mem_append.mpr ⟨fun x hx => ?_, fun x hx => ?_⟩
    · obtain ⟨w, -, hx⟩ := List.mem_flatMap.mp hx
      exact hchars w x hx
    · obtain ⟨w, -, hx⟩ := List.mem_flatMap.mp hx
      exact hcapitalized w x hx
  | pascalCase =>
    intro x hx
    obtain ⟨w, -, hx⟩ := List.mem_flatMap.mp hx
    exact hcapitalized w x hx
  | screamingSnake =>
    exact forall_mem_intercalate rfl (List.forall_mem_map.mpr fun w _ => hupper w)

/-- The first character is in lower case, so the convention is not one with a capital. -/
theorem not_capital_of_isLower {first : Char} (h : first.isLower = true) (rest : List Char) :
    isScreaming (first :: rest) = false ∧ isPascal (first :: rest) = false := by
  simp [isScreaming, isPascal, isUpper_of_isLower h]

/-- Words with a separator between them are in none of the first three conventions. -/
theorem strict?_separated (hsep : separator.isAlphanum = false) (w v : Word) (words : List Word) :
    strict? ([separator].intercalate ((w :: v :: words).map Word.chars))
      = if isSeparated '-' ([separator].intercalate ((w :: v :: words).map Word.chars))
        then some .kebabCase
        else if isSeparated '_' ([separator].intercalate ((w :: v :: words).map Word.chars))
        then some .snakeCase else none := by
  have hname : [separator].intercalate ((w :: v :: words).map Word.chars)
      = w.first :: (w.rest ++ ((v :: words).map Word.chars).flatMap (separator :: ·)) := by
    rw [List.map_cons, intercalate_cons]
    rfl
  have hcamel : isCamel ([separator].intercalate ((w :: v :: words).map Word.chars)) = false := by
    rw [hname]
    simp [isCamel, hsep]
  obtain ⟨hscreaming, hpascal⟩ := not_capital_of_isLower w.isLower_first
    (w.rest ++ ((v :: words).map Word.chars).flatMap (separator :: ·))
  rw [← hname] at hscreaming hpascal
  simp only [strict?, hscreaming, hpascal, hcamel, Bool.false_eq_true, if_false]

theorem strict?_kebab (h : Tells .kebabCase words) :
    strict? (render .kebabCase words) = some .kebabCase := by
  match words, h with
  | w :: v :: words, _ =>
    rw [render, strict?_separated rfl, isSeparated_intercalate rfl, if_pos rfl]

theorem strict?_snake (h : Tells .snakeCase words) :
    strict? (render .snakeCase words) = some .snakeCase := by
  match words, h with
  | w :: v :: words, _ =>
    have hdash : '-' ∉ render .snakeCase (w :: v :: words) := by
      refine fun hmem => forall_mem_intercalate (p := (· ≠ '-')) (by decide) ?_ _ hmem rfl
      refine List.forall_mem_map.mpr fun u _ c hc heq => ?_
      have halnum := Word.isAlphanum_of_mem_chars c hc
      rw [heq] at halnum
      cases halnum
    have hkebab := isSeparated_of_not_mem hdash
    rw [render] at hkebab ⊢
    rw [strict?_separated rfl, hkebab, isSeparated_intercalate rfl]
    rfl

theorem isAlphanum_of_mem_behind {w : Word} :
    ∀ c ∈ w.rest ++ words.flatMap Word.capitalized, c.isAlphanum = true := by
  refine List.forall_mem_append.mpr ⟨fun c hc => ?_, fun c hc => ?_⟩
  · exact isAlphanum_of_isLowerOrDigit (Word.isLowerOrDigit_of_mem c hc)
  · obtain ⟨u, -, hc⟩ := List.mem_flatMap.mp hc
    exact Word.isAlphanum_of_mem_capitalized c hc

theorem strict?_camel (hne : words ≠ []) :
    strict? (render .camelCase words) = some .camelCase := by
  obtain ⟨w, words, rfl⟩ := List.exists_cons_of_ne_nil hne
  have hname : render .camelCase (w :: words)
      = w.first :: (w.rest ++ words.flatMap Word.capitalized) := by
    simp [render, Word.chars]
  obtain ⟨hscreaming, hpascal⟩ := not_capital_of_isLower w.isLower_first
    (w.rest ++ words.flatMap Word.capitalized)
  have hcamel : isCamel (w.first :: (w.rest ++ words.flatMap Word.capitalized)) = true := by
    rw [isCamel, w.isLower_first, List.all_eq_true.mpr isAlphanum_of_mem_behind]
    rfl
  rw [hname, strict?, hscreaming, hpascal, hcamel]
  rfl

/-- A lower-case letter or the lack of a second character tells a name in capitalized words from one
in capitals. -/
theorem strict?_pascal (hne : words ≠ []) (h : Tells .pascalCase words) :
    strict? (render .pascalCase words) = some .pascalCase := by
  obtain ⟨w, words, rfl⟩ := List.exists_cons_of_ne_nil hne
  have hname : render .pascalCase (w :: words)
      = w.first.toUpper :: (w.rest ++ words.flatMap Word.capitalized) := by
    simp [render, Word.capitalized]
  have hscreaming : isScreaming (render .pascalCase (w :: words)) = false := by
    rcases h with ⟨c, hc, hlower⟩ | hone
    · rw [hname] at hc ⊢
      rcases List.mem_cons.mp hc with rfl | hc
      · exact absurd w.isUpper_first (by simp [isUpper_of_isLower hlower])
      · have hall : (w.rest ++ words.flatMap Word.capitalized).all isCapitalChar = false :=
          List.all_eq_false.mpr ⟨c, hc, by simp [isCapitalChar_of_isLower hlower]⟩
        simp only [isScreaming, hall, Bool.and_false]
    · rw [hname, List.length_cons, Nat.add_eq_right, List.length_eq_zero_iff] at hone
      rw [hname, hone]
      simp [isScreaming]
  have hpascal : isPascal (render .pascalCase (w :: words)) = true := by
    rw [hname, isPascal, w.isUpper_first, List.all_eq_true.mpr isAlphanum_of_mem_behind]
    rfl
  rw [strict?, hscreaming, hpascal]
  rfl

theorem strict?_screaming (hne : words ≠ []) (h : Tells .screamingSnake words) :
    strict? (render .screamingSnake words) = some .screamingSnake := by
  obtain ⟨w, words, rfl⟩ := List.exists_cons_of_ne_nil hne
  have hcapital : ∀ c ∈ render .screamingSnake (w :: words), isCapitalChar c = true :=
    forall_mem_intercalate rfl
      (List.forall_mem_map.mpr fun u _ => Word.isCapitalChar_of_mem_upper)
  have hname : render .screamingSnake (w :: words) = w.first.toUpper
      :: (w.rest.map Char.toUpper ++ (words.map Word.upper).flatMap ('_' :: ·)) := by
    rw [render, List.map_cons, intercalate_cons]
    rfl
  have hscreaming : isScreaming (render .screamingSnake (w :: words)) = true := by
    rw [Tells, hname, List.length_cons] at h
    rw [hname] at hcapital ⊢
    have hsecond := List.isEmpty_eq_false_iff.mpr
      (List.ne_nil_of_length_pos (Nat.le_of_succ_le_succ h))
    rw [isScreaming, w.isUpper_first, hsecond,
      List.all_eq_true.mpr (List.forall_mem_cons.mp hcapital).2]
    rfl
  rw [strict?, hscreaming]
  rfl

theorem strict?_render (hne : words ≠ []) {c : Convention} (h : Tells c words) :
    strict? (render c words) = some c := by
  cases c with
  | kebabCase => exact strict?_kebab h
  | snakeCase => exact strict?_snake h
  | camelCase => exact strict?_camel hne
  | pascalCase => exact strict?_pascal hne h
  | screamingSnake => exact strict?_screaming hne h

/-- The name of an index file is in camel case, and in no other convention. -/
theorem ofName?_render (hne : words ≠ []) {c : Convention} (h : Tells c words) :
    ofName? (render c words)
      = if c = .camelCase ∧ render c words = "index".toList then none else some c := by
  have hstrict := strict?_render hne h
  have hline : '\n' ∉ render c words := not_mem_of_isNameChar (isNameChar_of_mem_render c) rfl
  have hdrop : dropFinalNewline (render c words) = render c words := by
    rw [dropFinalNewline, if_neg fun hlast => hline (List.mem_of_getLast? hlast)]
  rw [ofName?, List.isEmpty_eq_false_iff.mpr (render_ne_nil hne c), Bool.false_or, hdrop, hstrict]
  by_cases hindex : render c words = "index".toList
  · have hcamel : c = .camelCase := by
      have hone : strict? "index".toList = some .camelCase := by decide
      rw [hindex, hone] at hstrict
      exact (Option.some.inj hstrict).symm
    rw [if_pos (beq_iff_eq.mpr hindex), if_pos ⟨hcamel, hindex⟩]
  · rw [if_neg fun heq => hindex (beq_iff_eq.mp heq), if_neg fun hboth => hindex hboth.2]
    rfl

/-! ## File names -/

/-- What stands behind the last dot of a file name. -/
structure Extension where
  text : List Char
  ne_nil : text ≠ []
  dot_free : '.' ∉ text

/-- A file name made of words, with an extension and maybe a dot in front. -/
def fileName (dotted : Bool) (c : Convention) (words : List Word) (e : Extension) : String :=
  String.ofList ((if dotted then ['.'] else []) ++ render c words ++ '.' :: e.text)

theorem dropExtension_append (name : List Char) (e : Extension) :
    dropExtension (name ++ '.' :: e.text) = name := by
  have hreverse : (name ++ '.' :: e.text).reverse = e.text.reverse ++ '.' :: name.reverse := by simp
  have hbody : ∀ c ∈ e.text.reverse, (c != '.') = true := by
    intro c hc
    simpa using fun heq : c = '.' => e.dot_free (heq ▸ List.mem_reverse.mp hc)
  have hstop : ∀ c, ('.' :: name.reverse).head? = some c → (c != '.') = false := by simp
  obtain ⟨hending, hstem⟩ := takeWhile_stop hbody hstop
  rw [dropExtension, hreverse, hending, hstem]
  simp [e.ne_nil]

theorem ofFileName?_fileName (hne : words ≠ []) (c : Convention) (e : Extension) (dotted : Bool) :
    ofFileName? (fileName dotted c words e) = ofName? (render c words) := by
  have hdot : '.' ∉ render c words := not_mem_of_isNameChar (isNameChar_of_mem_render c) rfl
  rw [ofFileName?, fileName, String.toList_ofList, dropExtension_append]
  cases dotted with
  | true => rfl
  | false =>
    obtain ⟨first, rest, hname⟩ := List.exists_cons_of_ne_nil (render_ne_nil hne c)
    rw [hname] at hdot ⊢
    rw [if_neg Bool.false_ne_true, List.nil_append]
    exact congrArg ofName? (dropLeadingDot.eq_2 _ fun tail heq => hdot (by simp [heq]))

/-- What a file is listed under. -/
def answer (name : String) : String := ((ofFileName? name).map text).getD unknownText

/-- The convention that a file name is written in is found again, whatever its extension. -/
theorem answer_fileName (hne : words ≠ []) {c : Convention} (h : Tells c words) (e : Extension)
    (dotted : Bool) : answer (fileName dotted c words e)
      = if c = .camelCase ∧ render c words = "index".toList then unknownText else c.text := by
  rw [answer, ofFileName?_fileName hne, ofName?_render hne h]
  split <;> rfl

/-- Two words, one with a digit. -/
def userCard : List Word :=
  [⟨'u', "ser".toList, rfl, by simp⟩, ⟨'c', "ard2".toList, rfl, by simp⟩]

def testExtension : Extension := ⟨"tsx".toList, by decide, by decide⟩

theorem answer_fileName_userCard :
    answer ".UserCard2.tsx" = "PascalCase" ∧ answer "USER_CARD2.tsx" = "SCREAMING_SNAKE" := by
  have hne : userCard ≠ [] := List.cons_ne_nil _ _
  have hlower : Tells .pascalCase userCard := Or.inl ⟨'s', by decide, rfl⟩
  have hcapitals : Tells .screamingSnake userCard :=
    show 2 ≤ (render .screamingSnake userCard).length by decide
  exact ⟨answer_fileName hne hlower testExtension true,
    answer_fileName hne hcapitals testExtension false⟩

end RepoSurvey.Convention
