import RepoSurvey.Manifest.Requirement
import RepoSurvey.Proofs.Pattern.Preferred
import RepoSurvey.Proofs.Text.Trim

/-!
# Reading a requirement from left to right

The pattern for requirements can be matched in one way only, so a requirement is what a scan gives
that never goes back.

* `Requirement.scan`: the scan, with `dropExtras`, `afterName` and `afterExtras`;
* `exists_prefers_extras`: extras are taken exactly if they are closed;
* `exists_matchStart?`, `matchStart?_eq_none`: what the pattern captures of a text in its parts;
* `requirement?_eq_scan`: the pattern and the scan give the same;
* `Requirement.Parts`: a text in its parts; `Requirement.scan_swap`, `Requirement.afterExtras_cut`:
  what stands behind the semicolon does not matter;
* `requirement?_scans`: all this together.
-/

namespace RepoSurvey.Manifest

open Pattern

/-! ## The scan -/

/-- A character of the name of a package. -/
def isNameChar (c : Char) : Bool := c.isAlphanum || c == '.' || c == '_' || c == '-'

/-- A text without the extras in brackets at its start. Without a closing bracket there are none. -/
def dropExtras : List Char → List Char
  | '[' :: rest => if ']' ∈ rest then (rest.dropWhile (· != ']')).tail else '[' :: rest
  | text => text

namespace Requirement

/-- What follows the name and the blanks behind it. -/
def afterName (text : List Char) : List Char :=
  Text.trimLeft ((Text.trimLeft text).dropWhile isNameChar)

/-- What follows the extras and the blanks behind them. -/
def afterExtras (text : List Char) : List Char := Text.trimLeft (dropExtras (afterName text))

/-- The specifier: what follows the extras up to a semicolon, without blanks around it. -/
def specText (text : List Char) : List Char := Text.trim ((afterExtras text).takeWhile (· != ';'))

/-- The name: the letters, digits, dots, low lines and hyphens at the start, behind blanks. -/
def nameText (text : List Char) : List Char := (Text.trimLeft text).takeWhile isNameChar

def scan (text : List Char) : Option Requirement :=
  if (Text.trimLeft text).head?.any Char.isAlphanum then
    some ⟨String.ofList (nameText text),
      if (specText text).isEmpty then "*" else String.ofList (specText text)⟩
  else none

end Requirement

/-! ## Extras -/

theorem dropExtras_closed {e : List Char} (he : ']' ∉ e) (rest : List Char) :
    dropExtras ('[' :: (e ++ ']' :: rest)) = rest := by
  have hstop : (e ++ ']' :: rest).dropWhile (· != ']') = ']' :: rest := by
    rw [List.dropWhile_append_of_pos]
    · rfl
    · intro c hc
      have hne : c ≠ ']' := by
        rintro rfl
        exact he hc
      simpa using hne
  rw [dropExtras, if_pos (by simp), hstop, List.tail_cons]

theorem dropExtras_open {text : List Char} (h : ∀ rest, text = '[' :: rest → ']' ∉ rest) :
    dropExtras text = text := by
  unfold dropExtras
  split
  · rename_i rest
    rw [if_neg (h rest rfl)]
  · rfl

/-- A text starts with extras that are closed, or there are none. -/
theorem extras_cases (text : List Char) :
    (∃ e rest, text = '[' :: (e ++ ']' :: rest) ∧ ']' ∉ e)
      ∨ ∀ rest, text = '[' :: rest → ']' ∉ rest := by
  by_cases h : ∃ rest, text = '[' :: rest ∧ ']' ∈ rest
  · obtain ⟨rest, rfl, hmem⟩ := h
    obtain ⟨e, more, rfl, he⟩ := List.eq_append_cons_of_mem hmem
    exact Or.inl ⟨e, more, rfl, he⟩
  · exact Or.inr fun rest heq hmem => h ⟨rest, heq, hmem⟩

/-! ## The match -/

theorem isBlank_of_isAlphanum {c : Char} (h : c.isAlphanum = true) : Text.isBlank c = false := by
  have hall : ∀ n < 128, (Char.ofNat n).isAlphanum = true →
      Text.isBlank (Char.ofNat n) = false := by
    decide +kernel
  have hc := hall c.toNat (Text.toNat_lt_of_isAlphanum h)
  rw [Char.ofNat_toNat] at hc
  exact hc h

/-- The pattern for extras in brackets. -/
def extras : List Pattern := ["[", star (.noneOf "]"), "]"]

theorem contains_noneOf {chars : List Char} {mark : String} {d : Char}
    (hmark : mark.toList = [d]) (h : d ∉ chars) :
    ∀ c ∈ chars, (CharSet.noneOf mark).contains c = true := by
  intro c hc
  have hne : c ≠ d := by
    rintro rfl
    exact h hc
  simp [CharSet.noneOf, hmark, hne]

/-- The pattern for extras takes those that are closed. -/
theorem exists_prefers_extras (cur : Cursor) : ∃ e, Prefers (Pattern.optional (seqs extras)) cur e
    ∧ e.rest = dropExtras cur.rest ∧ e.captured = cur.captured := by
  rcases extras_cases cur.rest with ⟨inside, rest, hrest, hinside⟩ | hopen
  · have hbracket : Prefers (seqs extras) cur
        (((cur.after ['['] (inside ++ ']' :: rest)).after inside (']' :: rest)).after [']'] rest) :=
      (prefers_literal "[" hrest).seqs_cons
        ((prefers_star inside rfl (contains_noneOf rfl hinside)
          (forall_head?_cons (by decide) rest)).seqs_cons
            ((prefers_literal "]" rfl).seqs_cons (prefers_empty _)))
    exact ⟨_, hbracket.optional, by rw [hrest, dropExtras_closed hinside]; rfl, rfl⟩
  · have hnone : (seqs extras).ends cur = [] := by
      rw [List.eq_nil_iff_forall_not_mem]
      intro last hlast
      obtain ⟨first, hfirst, hlast⟩ := mem_ends_seqs_cons.mp hlast
      obtain ⟨second, hsecond, hlast⟩ := mem_ends_seqs_cons.mp hlast
      obtain ⟨third, hthird, _⟩ := mem_ends_seqs_cons.mp hlast
      obtain ⟨behind, hbehind, rfl⟩ := mem_ends_literal.mp hfirst
      obtain ⟨inside, left, hleft, _, rfl⟩ := mem_ends_star.mp hsecond
      obtain ⟨rest, hrest, _⟩ := mem_ends_literal.mp hthird
      have hinside : behind = inside ++ left := hleft
      have hclosed : left = ']' :: rest := hrest
      exact hopen behind hbehind (by rw [hinside, hclosed]; simp)
    exact ⟨cur, prefers_optional hnone, (dropExtras_open hopen).symm, rfl⟩

/-- Blanks are passed over. -/
theorem prefers_blanks (cur : Cursor) : Prefers blanks cur
    (cur.after (cur.rest.takeWhile Text.isBlank) (Text.trimLeft cur.rest)) :=
  prefers_star _ List.takeWhile_append_dropWhile.symm (List.all_eq_true.mp List.all_takeWhile)
    not_of_head?_dropWhile

/-- A repetition is captured whole. -/
theorem chars_capture (text : List Char) (p : Char → Bool) :
    Capture.chars ⟨text, (text.takeWhile p).length⟩ = text.takeWhile p :=
  (List.prefix_iff_eq_take.mp (List.takeWhile_prefix p)).symm

theorem takeWhile_name {c : Char} (hc : c.isAlphanum = true) (rest : List Char) :
    (c :: rest).takeWhile isNameChar = c :: rest.takeWhile isNameChar
      ∧ (c :: rest).dropWhile isNameChar = rest.dropWhile isNameChar := by
  have hname : isNameChar c = true := by simp [isNameChar, hc]
  exact ⟨List.takeWhile_cons_of_pos hname, List.dropWhile_cons_of_pos hname⟩

/-- A name is captured up to its end. -/
theorem exists_prefers_name {cur : Cursor} {c : Char} {rest : List Char}
    (hrest : cur.rest = c :: rest) (hc : c.isAlphanum = true) :
    ∃ e, Prefers (capture (seqs [asciiAlphanum, star nameTail])) cur e
      ∧ e.rest = (c :: rest).dropWhile isNameChar
      ∧ e.captured.map Capture.chars
        = (c :: rest).takeWhile isNameChar :: cur.captured.map Capture.chars := by
  have hname : Prefers (seqs [asciiAlphanum, star nameTail]) cur
      ((cur.after [c] rest).after (rest.takeWhile isNameChar) (rest.dropWhile isNameChar)) :=
    (prefers_one hrest hc).seqs_cons
      ((prefers_star (rest.takeWhile isNameChar) List.takeWhile_append_dropWhile.symm
        (List.all_eq_true.mp List.all_takeWhile) not_of_head?_dropWhile).seqs_cons
          (prefers_empty _))
  obtain ⟨htaken, hleft⟩ := takeWhile_name hc rest
  have hlength : cur.offset + 1 + (rest.takeWhile isNameChar).length - cur.offset
      = ((c :: rest).takeWhile isNameChar).length := by
    rw [htaken, List.length_cons]
    omega
  refine ⟨_, hname.capture, hleft.symm, ?_⟩
  show Capture.chars ⟨cur.rest, cur.offset + 1 + (rest.takeWhile isNameChar).length - cur.offset⟩
    :: cur.captured.map Capture.chars = _
  rw [hrest, hlength, chars_capture]

/-- The specifier is captured up to a semicolon. -/
theorem exists_prefers_spec (cur : Cursor) :
    ∃ e, Prefers (seqs [blanks, capture (star (.noneOf ";"))]) cur e
      ∧ e.captured.map Capture.chars
        = (Text.trimLeft cur.rest).takeWhile (· != ';') :: cur.captured.map Capture.chars := by
  have hset : (CharSet.noneOf ";").contains = (· != ';') := by
    funext c
    by_cases hc : c = ';' <;> simp [CharSet.noneOf, hc]
  have hwhole : (cur.after (cur.rest.takeWhile Text.isBlank) (Text.trimLeft cur.rest)).rest
      = (Text.trimLeft cur.rest).takeWhile (· != ';')
        ++ (Text.trimLeft cur.rest).dropWhile (· != ';') :=
    List.takeWhile_append_dropWhile.symm
  have htaken : ∀ c ∈ (Text.trimLeft cur.rest).takeWhile (· != ';'),
      (CharSet.noneOf ";").contains c = true :=
    hset ▸ List.all_eq_true.mp List.all_takeWhile
  have hspec := prefers_star _ hwhole htaken (hset ▸ not_of_head?_dropWhile)
  refine ⟨_, (prefers_blanks cur).seqs_cons (hspec.capture.seqs_cons (prefers_empty _)), ?_⟩
  show Capture.chars ⟨Text.trimLeft cur.rest, _⟩ :: cur.captured.map Capture.chars = _
  rw [Cursor.after_offset, Nat.add_sub_cancel_left, chars_capture]

/-- A text that starts with a letter or a digit behind blanks is matched, and the name and the
specifier are captured. -/
theorem exists_matchStart? {text rest : List Char} {c : Char}
    (htext : Text.trimLeft text = c :: rest) (hc : c.isAlphanum = true) :
    ∃ stop, requirementPattern.matchStart? text
      = some ⟨0, stop, [(c :: rest).takeWhile isNameChar,
        (Requirement.afterExtras text).takeWhile (· != ';')]⟩ := by
  have hgap := prefers_blanks (Cursor.start text)
  have hstart : ((Cursor.start text).after (text.takeWhile Text.isBlank) (Text.trimLeft text)).rest
      = c :: rest := htext
  obtain ⟨name, hname, hnameRest, hnameCaptured⟩ := exists_prefers_name hstart hc
  have hbehind := prefers_blanks name
  obtain ⟨inner, hinner, hinnerRest, hinnerCaptured⟩ := exists_prefers_extras
    (name.after (name.rest.takeWhile Text.isBlank) (Text.trimLeft name.rest))
  obtain ⟨stop, hstop, hstopCaptured⟩ := exists_prefers_spec inner
  have hall : Prefers requirementPattern (Cursor.start text) stop :=
    (prefers_anchor rfl).seqs_cons (hgap.seqs_cons (hname.seqs_cons (hbehind.seqs_cons
      (hinner.seqs_cons hstop))))
  have hcaptured : stop.captured.reverse.map Capture.chars = [(c :: rest).takeWhile isNameChar,
      (Requirement.afterExtras text).takeWhile (· != ';')] := by
    rw [List.map_reverse, hstopCaptured, hinnerCaptured, Cursor.after_captured, hnameCaptured,
      hinnerRest, Cursor.after_rest, hnameRest, ← htext]
    rfl
  exact ⟨stop.offset, by rw [hall.matchStart?, hcaptured]⟩

/-- Nothing else is matched: the name is at the start, behind blanks. -/
theorem matchStart?_eq_none {text : List Char}
    (h : ∀ c rest, Text.trimLeft text = c :: rest → c.isAlphanum = false) :
    requirementPattern.matchStart? text = none := by
  cases hm : requirementPattern.matchStart? text with
  | none => rfl
  | some m =>
    obtain ⟨last, hlast, _⟩ := exists_of_matchAt? hm
    obtain ⟨first, hfirst, hlast⟩ := mem_ends_seqs_cons.mp hlast
    obtain ⟨second, hsecond, hlast⟩ := mem_ends_seqs_cons.mp hlast
    obtain ⟨third, hthird, _⟩ := mem_ends_seqs_cons.mp hlast
    obtain ⟨_, rfl⟩ := mem_ends_anchor.mp hfirst
    obtain ⟨gap, left, hleft, hblank, rfl⟩ := mem_ends_blanks.mp hsecond
    obtain ⟨_, hcaptured, rfl⟩ := mem_ends_capture.mp hthird
    obtain ⟨_, hone, _⟩ := mem_ends_seqs_cons.mp hcaptured
    obtain ⟨c, rest, hcons, hc, _⟩ := mem_ends_one.mp hone
    have hletter : c.isAlphanum = true := hc
    have hsplit : text = gap ++ c :: rest := hleft.trans (congrArg (gap ++ ·) hcons)
    have htrim : Text.trimLeft text = c :: rest := by
      rw [hsplit, Text.trimLeft, List.dropWhile_append_of_pos hblank]
      exact List.dropWhile_cons_of_neg (by simp [isBlank_of_isAlphanum hletter])
    rw [h c rest htrim] at hletter
    cases hletter

/-- A requirement is what the scan gives. -/
theorem requirement?_eq_scan (text : List Char) : requirement? text = Requirement.scan text := by
  rw [Requirement.scan]
  split
  · rename_i hstart
    obtain ⟨c, hhead, hc⟩ := (Option.any_eq_true _ _).mp hstart
    obtain ⟨rest, htext⟩ := List.head?_eq_some_iff.mp hhead
    obtain ⟨stop, hm⟩ := exists_matchStart? htext hc
    rw [requirement?, hm, Option.map_some, Requirement.nameText, htext]
    simp [Match.text, Match.capture, Requirement.specText, anyVersion]
  · rename_i hstart
    have hnone : requirementPattern.matchStart? text = none := by
      refine matchStart?_eq_none fun c rest htext => ?_
      rw [htext] at hstart
      exact eq_false_of_ne_true hstart
    rw [requirement?, hnone, Option.map_none]

/-! ## Behind the semicolon -/

namespace Requirement

/-- Nothing, or a semicolon and what follows it. -/
def Tail (tail : List Char) : Prop := ∀ c, tail.head? = some c → c = ';'

theorem tail_nil : Tail [] := by
  intro c hc
  cases hc

theorem tail_semicolon (rest : List Char) : Tail (';' :: rest) :=
  forall_head?_cons (P := fun c => c = ';') rfl rest

variable {front lead spec tail other : List Char}

/-- With another tail a text starts with the same character, or with one that a semicolon stands
for as well. -/
theorem head_swap {p : Char → Bool} (hp : p ';' = false) (hother : Tail other)
    (h : ∀ c, (lead ++ tail).head? = some c → p c = false) :
    ∀ c, (lead ++ other).head? = some c → p c = false := by
  intro c hc
  cases lead with
  | nil =>
    rw [hother c hc]
    exact hp
  | cons d lead => exact h c hc

/-- Extras that are not closed are not closed by another tail without a bracket. -/
theorem open_swap (hother : Tail other) (hbracket : ']' ∉ other)
    (h : ∀ rest, lead ++ tail = '[' :: rest → ']' ∉ rest) :
    ∀ rest, lead ++ other = '[' :: rest → ']' ∉ rest := by
  intro rest heq
  cases lead with
  | nil =>
    have hmark : other = '[' :: rest := heq
    exact absurd (hother '[' (by rw [hmark]; rfl)) (by decide)
  | cons d lead =>
    obtain ⟨rfl, hrest⟩ := List.cons.inj heq
    have hlead : ']' ∉ lead ++ tail := h (lead ++ tail) rfl
    have hboth : ']' ∉ lead ++ other := by
      rw [List.mem_append, not_or] at hlead ⊢
      exact ⟨hlead.1, hbracket⟩
    rw [← hrest]
    exact hboth

/-- A text that starts with blanks and a name. -/
structure Lead (text gap name rest : List Char) : Prop where
  whole : text = gap ++ (name ++ rest)
  gap : ∀ c ∈ gap, Text.isBlank c = true
  started : ∀ c, (name ++ rest).head? = some c → Text.isBlank c = false
  name : ∀ c ∈ name, isNameChar c = true
  named : ∀ c, rest.head? = some c → isNameChar c = false

/-- A text in parts: behind the name come blanks, extras, blanks, and what is left. -/
structure Parts (text gap name blanks extras more left : List Char) : Prop
    extends Lead text gap name (blanks ++ (extras ++ (more ++ left))) where
  blanks : ∀ c ∈ blanks, Text.isBlank c = true
  passed : ∀ c, (extras ++ (more ++ left)).head? = some c → Text.isBlank c = false
  extras : (∃ inside, extras = '[' :: (inside ++ [']']) ∧ ']' ∉ inside)
    ∨ extras = [] ∧ ∀ rest, more ++ left = '[' :: rest → ']' ∉ rest
  more : ∀ c ∈ more, Text.isBlank c = true
  behind : ∀ c, left.head? = some c → Text.isBlank c = false

variable {text gap name blanks extras more left rest : List Char}

theorem Lead.trimLeft_eq (h : Lead text gap name rest) : Text.trimLeft text = name ++ rest := by
  rw [h.whole]
  exact (takeWhile_stop h.gap h.started).2

theorem Lead.nameText_eq (h : Lead text gap name rest) : nameText text = name := by
  rw [nameText, h.trimLeft_eq]
  exact (takeWhile_stop h.name h.named).1

theorem Parts.afterExtras_eq (h : Parts text gap name blanks extras more left) :
    afterExtras text = left := by
  have hname : afterName text = extras ++ (more ++ left) := by
    rw [afterName, h.trimLeft_eq, (takeWhile_stop h.name h.named).2]
    exact (takeWhile_stop h.blanks h.passed).2
  have hextras : dropExtras (extras ++ (more ++ left)) = more ++ left := by
    rcases h.extras with ⟨inside, rfl, hinside⟩ | ⟨rfl, hopen⟩
    · simpa using dropExtras_closed hinside (more ++ left)
    · exact dropExtras_open hopen
  rw [afterExtras, hname, hextras]
  exact (takeWhile_stop h.more h.behind).2

theorem exists_dropExtras (text : List Char) : ∃ extras, text = extras ++ dropExtras text
    ∧ ((∃ inside, extras = '[' :: (inside ++ [']']) ∧ ']' ∉ inside)
      ∨ extras = [] ∧ ∀ rest, dropExtras text = '[' :: rest → ']' ∉ rest) := by
  rcases extras_cases text with ⟨inside, rest, rfl, hinside⟩ | hopen
  · refine ⟨'[' :: (inside ++ [']']), ?_, Or.inl ⟨inside, rfl, hinside⟩⟩
    rw [dropExtras_closed hinside]
    simp
  · have hsame := dropExtras_open hopen
    exact ⟨[], hsame.symm, Or.inr ⟨rfl, by rwa [hsame]⟩⟩

/-- Every text has its parts. -/
theorem exists_parts (text : List Char) : ∃ gap name blanks extras more,
    Parts text gap name blanks extras more (afterExtras text) := by
  have hsplit : ∀ (p : Char → Bool) (t : List Char), t = t.takeWhile p ++ t.dropWhile p :=
    fun p t => List.takeWhile_append_dropWhile.symm
  have htaken : ∀ (p : Char → Bool) (t : List Char), ∀ c ∈ t.takeWhile p, p c = true :=
    fun p t => List.all_eq_true.mp List.all_takeWhile
  obtain ⟨extras, hextras, hkind⟩ := exists_dropExtras (afterName text)
  have hmore : dropExtras (afterName text)
      = (dropExtras (afterName text)).takeWhile Text.isBlank ++ afterExtras text := hsplit _ _
  have hname : (Text.trimLeft text).dropWhile isNameChar
      = ((Text.trimLeft text).dropWhile isNameChar).takeWhile Text.isBlank ++ afterName text :=
    hsplit _ _
  have htrim : Text.trimLeft text = nameText text ++ (Text.trimLeft text).dropWhile isNameChar :=
    hsplit _ _
  refine ⟨text.takeWhile Text.isBlank, nameText text,
    ((Text.trimLeft text).dropWhile isNameChar).takeWhile Text.isBlank, extras,
    (dropExtras (afterName text)).takeWhile Text.isBlank, ⟨?_, htaken _ _, ?_, htaken _ _, ?_⟩,
    htaken _ _, ?_, ?_, htaken _ _, not_of_head?_dropWhile⟩
  · rw [← hmore, ← hextras, ← hname, ← htrim]
    exact hsplit _ _
  · rw [← hmore, ← hextras, ← hname, ← htrim]
    exact not_of_head?_dropWhile
  · rw [← hmore, ← hextras, ← hname]
    exact not_of_head?_dropWhile
  · rw [← hmore, ← hextras]
    exact not_of_head?_dropWhile
  · rw [← hmore]
    exact hkind

/-- In front of what follows the extras stand the other parts. -/
theorem exists_parts_of_afterExtras (htext : text = front ++ left)
    (hafter : afterExtras text = left) : ∃ gap name blanks extras more,
    front = gap ++ (name ++ (blanks ++ (extras ++ more)))
      ∧ Parts text gap name blanks extras more left := by
  obtain ⟨gap, name, blanks, extras, more, hparts⟩ := exists_parts text
  rw [hafter] at hparts
  refine ⟨gap, name, blanks, extras, more, ?_, hparts⟩
  simpa [← List.append_assoc] using htext.symm.trans hparts.whole

/-- Another tail leaves the name as it is. -/
theorem Lead.swap (h : Lead text gap name (lead ++ tail)) (hother : Tail other) :
    Lead (gap ++ (name ++ (lead ++ other))) gap name (lead ++ other) where
  whole := rfl
  gap := h.gap
  started := by
    have hstarted := h.started
    rw [← List.append_assoc] at hstarted ⊢
    exact head_swap (by decide) hother hstarted
  name := h.name
  named := head_swap (by decide) hother h.named

/-- Another tail that closes no bracket leaves all parts in front of it as they are. -/
theorem Parts.swap (h : Parts text gap name blanks extras more (spec ++ tail))
    (hother : Tail other) (hbracket : ']' ∉ other) :
    Parts (gap ++ (name ++ (blanks ++ (extras ++ (more ++ (spec ++ other)))))) gap name blanks
      extras more (spec ++ other) where
  toLead := by
    have hlead := h.toLead
    have hfront : ∀ last, blanks ++ (extras ++ (more ++ (spec ++ last)))
        = blanks ++ (extras ++ (more ++ spec)) ++ last := by simp
    rw [hfront] at hlead ⊢
    exact hlead.swap hother
  blanks := h.blanks
  passed := by
    have hpassed := h.passed
    simp only [← List.append_assoc] at hpassed ⊢
    exact head_swap (by decide) hother hpassed
  extras := by
    refine h.extras.imp_right fun ⟨hnone, hopen⟩ => ⟨hnone, ?_⟩
    rw [← List.append_assoc] at hopen ⊢
    exact open_swap hother hbracket hopen
  more := h.more
  behind := head_swap (by decide) hother h.behind

theorem Tail.any_head? (h : Tail tail) : tail.head?.any Char.isAlphanum = false := by
  cases tail with
  | nil => rfl
  | cons c tail =>
    obtain rfl := h c rfl
    rfl

/-- With the same specifier another tail gives the same requirement. -/
theorem Lead.scan_eq (h : Lead text gap name (lead ++ tail)) (htail : Tail tail)
    (hother : Tail other)
    (hspec : specText (gap ++ (name ++ (lead ++ other))) = specText text) :
    scan (gap ++ (name ++ (lead ++ other))) = scan text := by
  have hswap := h.swap hother
  have hstart : (Text.trimLeft (gap ++ (name ++ (lead ++ other)))).head?.any Char.isAlphanum
      = (Text.trimLeft text).head?.any Char.isAlphanum := by
    rw [hswap.trimLeft_eq, h.trimLeft_eq, ← List.append_assoc, ← List.append_assoc]
    cases name ++ lead with
    | nil => exact hother.any_head?.trans htail.any_head?.symm
    | cons c front => rfl
  rw [scan, scan, hstart, hspec, hswap.nameText_eq, h.nameText_eq]

theorem specText_eq (h : afterExtras text = spec ++ tail) (hspec : ';' ∉ spec)
    (htail : Tail tail) : specText text = Text.trim spec := by
  have hbefore : ∀ c ∈ spec, (c != ';') = true := by
    intro c hc
    have hne : c ≠ ';' := by
      rintro rfl
      exact hspec hc
    simpa using hne
  have hstop : ∀ c, tail.head? = some c → (c != ';') = false := by
    intro c hc
    rw [htail c hc]
    rfl
  rw [specText, h, (takeWhile_stop hbefore hstop).1]

/-- Where the specifier is the same and not closed before, what follows it does not matter. -/
theorem scan_swap (htext : text = front ++ (spec ++ tail))
    (hafter : afterExtras text = spec ++ tail) (hspec : ';' ∉ spec) (htail : Tail tail)
    (hother : Tail other) (hkept : afterExtras (front ++ (spec ++ other)) = spec ++ other) :
    scan (front ++ (spec ++ other)) = scan text := by
  obtain ⟨gap, name, blanks, extras, more, rfl, hparts⟩ :=
    exists_parts_of_afterExtras htext hafter
  have hlead := hparts.toLead
  have hfront : ∀ last, gap ++ (name ++ (blanks ++ (extras ++ (more ++ spec)) ++ last))
      = gap ++ (name ++ (blanks ++ (extras ++ more))) ++ (spec ++ last) := by simp
  have hassoc : blanks ++ (extras ++ (more ++ (spec ++ tail)))
      = blanks ++ (extras ++ (more ++ spec)) ++ tail := by simp
  rw [hassoc] at hlead
  have hsame := hlead.scan_eq htail hother
  rw [hfront] at hsame
  exact hsame ((specText_eq hkept hspec hother).trans (specText_eq hafter hspec htail).symm)

/-- What follows the extras up to a semicolon follows them also if the text ends there. -/
theorem afterExtras_cut (htext : text = front ++ (spec ++ tail))
    (hafter : afterExtras text = spec ++ tail) : afterExtras (front ++ spec) = spec := by
  obtain ⟨gap, name, blanks, extras, more, rfl, hparts⟩ :=
    exists_parts_of_afterExtras htext hafter
  have hswap := (hparts.swap tail_nil List.not_mem_nil).afterExtras_eq
  rw [List.append_nil] at hswap
  simpa using hswap

theorem of_scan_eq_some {r : Requirement} (h : scan text = some r) : r.spec ≠ ""
    ∧ ';' ∉ r.spec.toList ∧ (∀ c, r.spec.toList.head? = some c → Text.isBlank c = false)
    ∧ ∀ c, r.spec.toList.getLast? = some c → Text.isBlank c = false := by
  rw [scan] at h
  split at h
  · cases h
    dsimp only
    split
    · refine ⟨by decide, by decide, fun c hc => ?_, fun c hc => ?_⟩
      · cases hc
        rfl
      · cases hc
        rfl
    · rename_i hne
      rw [String.toList_ofList]
      refine ⟨?_, ?_, Text.head?_trim, Text.getLast?_trim⟩
      · intro hempty
        have hchars := congrArg String.toList hempty
        rw [String.toList_ofList] at hchars
        exact hne (List.isEmpty_iff.mpr hchars)
      · intro hmem
        have htaken := List.all_eq_true.mp List.all_takeWhile ';' (Text.mem_of_mem_trim hmem)
        exact absurd htaken (by decide)
  · cases h

end Requirement

/-- A requirement is what a scan from left to right gives: nothing, if no letter or digit comes
first behind blanks. Its specifier is never empty, without semicolons and blanks around it. What
stands behind the first semicolon after the extras does not matter. -/
theorem requirement?_scans (text : List Char) :
    requirement? text = Requirement.scan text
    ∧ (requirement? text = none
      ↔ ∀ c, (Text.trimLeft text).head? = some c → c.isAlphanum = false)
    ∧ (∀ r, requirement? text = some r → r.spec ≠ "" ∧ ';' ∉ r.spec.toList
      ∧ (∀ c, r.spec.toList.head? = some c → Text.isBlank c = false)
      ∧ ∀ c, r.spec.toList.getLast? = some c → Text.isBlank c = false)
    ∧ ∀ front spec rest, text = front ++ (spec ++ ';' :: rest) → ';' ∉ spec →
      Requirement.afterExtras text = spec ++ ';' :: rest →
        requirement? (front ++ spec) = requirement? text
        ∧ ∀ other, Requirement.afterExtras (front ++ (spec ++ ';' :: other))
            = spec ++ ';' :: other →
          requirement? (front ++ (spec ++ ';' :: other)) = requirement? text := by
  refine ⟨requirement?_eq_scan text, ?_⟩
  simp only [requirement?_eq_scan]
  refine ⟨?_, fun r hr => Requirement.of_scan_eq_some hr, ?_⟩
  · rw [Requirement.scan]
    cases (Text.trimLeft text).head? with
    | none => simp
    | some c => simp
  · intro front spec rest htext hspec hafter
    have htail := Requirement.tail_semicolon rest
    refine ⟨?_, fun other hkept => Requirement.scan_swap htext hafter hspec htail
      (Requirement.tail_semicolon other) hkept⟩
    have hcut : Requirement.afterExtras (front ++ (spec ++ [])) = spec ++ [] := by
      simpa using Requirement.afterExtras_cut htext hafter
    have hsame := Requirement.scan_swap htext hafter hspec htail Requirement.tail_nil hcut
    rwa [List.append_nil] at hsame

/-- A semicolon within extras is not the first one behind them; without a closing bracket there are
no extras, and with one behind the semicolon there would be. -/
theorem requirement?_scans_extras :
    requirement? "\u00a0rich [a;b]\n== 13 ; x]".toList = some ⟨"rich", "== 13"⟩
    ∧ requirement? "\u00a0rich [a;b]\n== 13 ".toList
      = requirement? "\u00a0rich [a;b]\n== 13 ; x]".toList
    ∧ requirement? "\u00a0rich [a;b]\n== 13 ;[]".toList
      = requirement? "\u00a0rich [a;b]\n== 13 ; x]".toList
    ∧ requirement? "rich[a;b".toList = some ⟨"rich", "[a"⟩
    ∧ requirement? "rich[a;]".toList = some ⟨"rich", "*"⟩ := by
  obtain ⟨hscan, _, _, hcut⟩ := requirement?_scans "\u00a0rich [a;b]\n== 13 ; x]".toList
  obtain ⟨hshort, hother⟩ := hcut "\u00a0rich [a;b]\n".toList "== 13 ".toList " x]".toList
    (by decide) (by decide) (by decide +kernel)
  exact ⟨hscan.trans (by decide +kernel), hshort, hother "[]".toList (by decide +kernel),
    (requirement?_scans _).1.trans (by decide +kernel),
    (requirement?_scans _).1.trans (by decide +kernel)⟩

end RepoSurvey.Manifest
