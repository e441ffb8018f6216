import RepoSurvey.Proofs.Json.RoundTrip
import RepoSurvey.Proofs.Traversal

/-!
# Reading what others have written

Writers of JSON differ in their white space, in what they escape, and in the digits they give to a
number that is not whole.

* `Json.Encodes`: a text is a value as one of them writes it; `Json.Encodes.of_obj`: then the
  members of an object are encoded in it;
* `Json.Fractional`: a number that is not written as a whole one, with
  `Json.readScalar_fractional`;
* `Json.Reads`: what can be read with some fuel, with a step for each reader;
* `Json.read_of_encodes`: every such text is read as the value.
-/

namespace RepoSurvey.Json

/-! ## Texts of a value -/

/-- A number with digits behind a point, a power of ten, or both. -/
structure Fractional where
  negative : Bool
  whole : Nat
  fraction : List Char
  /-- The sign and the digits of the power. -/
  power : Option (Bool × List Char)
  isDigit_fraction : ∀ c ∈ fraction, c.isDigit = true
  isDigit_power : ∀ e ∈ power, e.2 ≠ [] ∧ ∀ c ∈ e.2, c.isDigit = true
  not_whole : fraction ≠ [] ∨ power.isSome = true

namespace Fractional

def fractionText (x : Fractional) : List Char :=
  if x.fraction.isEmpty then [] else '.' :: x.fraction

def powerText (x : Fractional) : List Char :=
  match x.power with
  | none => []
  | some (negative, digits) => 'e' :: (if negative then '-' else '+') :: digits

def text (x : Fractional) : List Char :=
  minus x.negative ++ (Nat.toDigits 10 x.whole ++ (x.fractionText ++ x.powerText))

/-- The power of ten, without the digits behind the point. -/
def exponent (x : Fractional) : Int :=
  match x.power with
  | none => 0
  | some (negative, digits) => if negative then -Text.asciiNat digits else Text.asciiNat digits

/-- The number of the format that is nearest to what the digits say. -/
def value (x : Fractional) : Binary64 :=
  .ofDecimal ⟨x.negative, Text.asciiNat (Nat.toDigits 10 x.whole ++ x.fraction),
    x.exponent - x.fraction.length⟩

end Fractional

/-- White space. -/
def Gaps (text : List Char) : Prop := ∀ c ∈ text, isGap c = true

instance (text : List Char) : Decidable (Gaps text) :=
  List.decidableBAll (fun c : Char => isGap c = true) text

/-- Nothing, or a new line with white space. -/
def Break (text : List Char) : Prop := text = [] ∨ ∃ more, text = '\n' :: more ∧ Gaps more

mutual

/-- A text is a value as some writer writes it: with any white space behind an opening mark, a comma
or a colon and any new line before a closing mark, and each string escaped in either style. -/
inductive Encodes : Json → List Char → Prop
  | null : Encodes .null "null".toList
  | bool (b : Bool) : Encodes (.bool b) (if b then "true" else "false").toList
  | int (n : Int) : Encodes (.int n) (intText n)
  | float (x : Fractional) : Encodes (.float x.value) x.text
  | nan : Encodes (.float .nan) "NaN".toList
  | infinite (negative : Bool) :
      Encodes (.float (.infinite negative)) (minus negative ++ "Infinity".toList)
  | str (ascii : Bool) (s : String) : Encodes (.str s) (renderString ascii s)
  | empty : Encodes (.arr []) ['[', ']']
  | arr {items : List Json} {text : List Char} : EncodesItems items text →
      Encodes (.arr items) ('[' :: text)
  | emptyObj : Encodes (.obj []) ['\x7b', '\x7d']
  | obj {members : List (String × Json)} {text : List Char} : (Table.names members).Nodup →
      EncodesMembers members text → Encodes (.obj members) ('\x7b' :: text)

/-- One or more items, up to the closing bracket. -/
inductive EncodesItems : List Json → List Char → Prop
  | last {item : Json} {before text after : List Char} : Gaps before → Encodes item text →
      Break after → EncodesItems [item] (before ++ (text ++ (after ++ [']'])))
  | cons {item : Json} {items : List Json} {before text more : List Char} : Gaps before →
      Encodes item text → EncodesItems items more →
      EncodesItems (item :: items) (before ++ (text ++ ',' :: more))

/-- One or more members, up to the closing brace. -/
inductive EncodesMembers : List (String × Json) → List Char → Prop
  | last (ascii : Bool) {name : String} {value : Json} {before between text after : List Char} :
      Gaps before → Gaps between → Encodes value text → Break after →
      EncodesMembers [(name, value)] (before ++ (renderString ascii name
        ++ ':' :: (between ++ (text ++ (after ++ ['\x7d'])))))
  | cons (ascii : Bool) {name : String} {value : Json} {members : List (String × Json)}
      {before between text more : List Char} :
      Gaps before → Gaps between → Encodes value text → EncodesMembers members more →
      EncodesMembers ((name, value) :: members) (before ++ (renderString ascii name
        ++ ':' :: (between ++ (text ++ ',' :: more))))

end

variable {limits : Limits} {fuel : Nat} {text rest : List Char}

/-! ## White space -/

theorem skipGaps_append {gaps : List Char} (h : Gaps gaps) (text : List Char) :
    skipGaps (gaps ++ text) = skipGaps text :=
  List.dropWhile_append_of_pos h

theorem Break.gaps (h : Break text) : Gaps text := by
  rcases h with rfl | ⟨more, rfl, hmore⟩
  · exact fun c hc => by cases hc
  · exact List.forall_mem_cons.mpr ⟨rfl, hmore⟩

/-- A closing mark behind a new line or not. -/
theorem Break.delimited (h : Break text) {close : Char} (hclose : close ∈ delimiters)
    (rest : List Char) : Delimited (text ++ close :: rest) := by
  rcases h with rfl | ⟨more, rfl, -⟩
  · exact delimited_cons hclose rest
  · exact delimited_cons (by decide) _

theorem Break.skipGaps_eq (h : Break text) {close : Char} (hclose : isGap close = false)
    (rest : List Char) : skipGaps (text ++ close :: rest) = close :: rest := by
  rw [skipGaps_append h.gaps, skipGaps_of_isGap hclose]

/-! ## The parts of an encoded object -/

theorem EncodesMembers.values {members : List (String × Json)} (h : EncodesMembers members text) :
    ∀ e ∈ members, ∃ part, Encodes e.2 part := by
  induction members generalizing text with
  | nil => simp
  | cons e members ih =>
    cases h with
    | last _ _ _ hvalue _ => exact List.forall_mem_singleton.mpr ⟨_, hvalue⟩
    | cons _ _ _ hvalue hmore => exact List.forall_mem_cons.mpr ⟨⟨_, hvalue⟩, ih hmore⟩

/-- What is encoded as an object has distinct names, and its members are encoded too. -/
theorem Encodes.of_obj {members : List (String × Json)} (h : Encodes (.obj members) text) :
    (Table.names members).Nodup ∧ ∀ e ∈ members, ∃ part, Encodes e.2 part := by
  cases h with
  | emptyObj => exact ⟨List.nodup_nil, by simp⟩
  | obj hnames hmembers => exact ⟨hnames, hmembers.values⟩

/-! ## Numbers that are not whole -/

namespace Fractional

variable (x : Fractional)

theorem exponentPart_powerText :
    exponentPart x.powerText = x.power.map fun _ => (x.exponent, []) := by
  have hdigits := x.isDigit_power
  rw [powerText, exponent]
  cases hpower : x.power with
  | none => rfl
  | some e =>
    obtain ⟨negative, digits⟩ := e
    obtain ⟨hne, hall⟩ := hdigits _ hpower
    have htake := List.takeWhile_eq_self_iff.mpr hall
    have hdrop := List.dropWhile_eq_nil_iff.mpr hall
    cases negative <;> simp [exponentPart, signPart, htake, hdrop, hne]

theorem head?_powerText : ∀ c ∈ x.powerText.head?, c.isDigit = false ∧ c ≠ '.' := by
  rw [powerText]
  cases x.power with
  | none => simp
  | some e => simp

theorem fractionPart_text : fractionPart (x.fractionText ++ x.powerText)
    = if x.fraction.isEmpty then none else some (x.fraction, x.powerText) := by
  have hpower := x.head?_powerText
  rw [fractionText]
  cases hfraction : x.fraction with
  | nil =>
    cases htext : x.powerText with
    | nil => rfl
    | cons c more =>
      have hc := (hpower c (by rw [htext]; rfl)).2
      simp [fractionPart, hc]
  | cons d digits =>
    obtain ⟨htake, hdrop⟩ := takeWhile_stop (hfraction ▸ x.isDigit_fraction)
      fun c hc => (hpower c hc).1
    simp only [List.isEmpty_cons, Bool.false_eq_true, ↓reduceIte, List.cons_append, fractionPart]
      at htake hdrop ⊢
    rw [htake, hdrop]
    rfl

theorem wholePart_text : wholePart (Nat.toDigits 10 x.whole ++ (x.fractionText ++ x.powerText))
    = some (Nat.toDigits 10 x.whole, x.fractionText ++ x.powerText) := by
  obtain ⟨d, more, hcons, hdigit, hzero⟩ := Text.exists_toDigits_eq_cons x.whole
  have hdigits : ∀ c ∈ d :: more, c.isDigit = true := fun c hc =>
    Nat.isDigit_of_mem_toDigits (by decide) (by decide) (hcons ▸ hc)
  have hbehind : ∀ c, (x.fractionText ++ x.powerText).head? = some c → c.isDigit = false := by
    intro c hc
    rw [fractionText] at hc
    split at hc
    · exact (x.head?_powerText c hc).1
    · cases hc
      rfl
  obtain ⟨htake, hdrop⟩ := takeWhile_stop hdigits hbehind
  rw [hcons]
  by_cases hd : d = '0'
  · rw [hd, hzero hd]
    rfl
  · rw [List.cons_append] at htake hdrop ⊢
    simp only [wholePart, hdigit, ↓reduceIte, htake, hdrop]

theorem readUnsigned_text : readUnsigned limits x.negative
    (Nat.toDigits 10 x.whole ++ (x.fractionText ++ x.powerText)) = .ok (.float x.value, []) := by
  have hpower := x.exponentPart_powerText
  rw [readUnsigned, x.wholePart_text]
  simp only [x.fractionPart_text]
  by_cases hfraction : x.fraction = []
  · have hsome := x.not_whole.resolve_left (not_not_intro hfraction)
    obtain ⟨e, he⟩ := Option.isSome_iff_exists.mp hsome
    have htext : x.fractionText ++ x.powerText = x.powerText := by simp [fractionText, hfraction]
    simp [hfraction, htext, hpower, he, value]
  · simp only [List.isEmpty_iff, hfraction, ↓reduceIte, Option.isNone_some, Bool.false_and,
      Bool.false_eq_true, Option.getD_some, hpower, value]
    cases hexponent : x.power with
    | none => simp [exponent, powerText, hexponent]
    | some e => simp [exponent, hexponent]

end Fractional

/-- A number is read as the nearest one of the format, however many digits it has. -/
theorem readScalar_fractional (x : Fractional) :
    readScalar limits x.text = .ok (.float x.value, []) := by
  obtain ⟨d, more, hcons, hdigit, -⟩ := Text.exists_toDigits_eq_cons x.whole
  rw [← x.readUnsigned_text, Fractional.text, hcons]
  exact readScalar_digit hdigit x.negative _

/-! ## The readers -/

/-- No list starts with its closing mark. -/
theorem not_close_of_readItems {r : List Json × List Char}
    (h : readItems limits fuel text = .ok r) : ∀ more, text ≠ ']' :: more := by
  rintro more rfl
  cases fuel with
  | zero => cases h
  | succ fuel =>
    rw [readItems, readValue_eq_malformed (by decide)] at h
    cases h

theorem not_close_of_readMembers {r : List (String × Json) × List Char}
    (h : readMembers limits fuel text = .ok r) : ∀ more, text ≠ '\x7d' :: more := by
  rintro more rfl
  cases fuel <;> cases h

/-- What the readers of values give with this fuel for texts that are shorter. -/
structure Reads (fuel : Nat) : Prop where
  value : ∀ {limits v text rest}, Encodes v text → Fits limits v → Delimited rest →
    text.length < fuel → readValue limits fuel (text ++ rest) = .ok (v, rest)
  items : ∀ {limits items text rest}, EncodesItems items text → (∀ v ∈ items, Fits limits v) →
    text.length < fuel → readItems limits fuel (skipGaps (text ++ rest)) = .ok (items, rest)
  members : ∀ {limits members text rest}, EncodesMembers members text →
    (∀ e ∈ members, Fits limits e.2) → text.length < fuel →
    readMembers limits fuel (skipGaps (text ++ rest)) = .ok (members, rest)

theorem readValue_of_word {v : Json} (h : readScalar limits text = .ok (v, []))
    (hrest : Delimited rest) : readValue limits (fuel + 1) (text ++ rest) = .ok (v, rest) :=
  readValue_of_readScalar (readScalar_append hrest h)

theorem Reads.readValue (h : Reads fuel) {v : Json} (hv : Encodes v text)
    (hfits : Fits limits v) (hrest : Delimited rest) (hfuel : text.length < fuel + 1) :
    readValue limits (fuel + 1) (text ++ rest) = .ok (v, rest) := by
  cases hv with
  | null => exact readValue_of_word rfl hrest
  | bool b => cases b <;> exact readValue_of_word rfl hrest
  | int n => exact readValue_of_word (readScalar_intText (fits_int.mp hfits)) hrest
  | float x => exact readValue_of_word (readScalar_fractional x) hrest
  | nan => exact readValue_of_word rfl hrest
  | infinite negative => cases negative <;> exact readValue_of_word rfl hrest
  | str ascii s =>
    obtain ⟨body, hbody, hread⟩ := readString_renderString ascii s rest
    rw [hbody, List.cons_append, Json.readValue, hread]
  | empty =>
    obtain ⟨inner, henter, _⟩ := fits_arr.mp hfits
    exact readValue_empty_arr henter rest
  | @arr items behind hitems =>
    obtain ⟨inner, henter, hfits⟩ := fits_arr.mp hfits
    have hread : readItems inner fuel (skipGaps (behind ++ rest)) = .ok (items, rest) :=
      h.items hitems hfits (Nat.lt_of_succ_lt_succ hfuel)
    exact readValue_arr henter (not_close_of_readItems hread) rfl hread
  | emptyObj =>
    obtain ⟨inner, henter, _⟩ := fits_obj.mp hfits
    exact readValue_empty_obj henter rest
  | @obj members behind hnames hmembers =>
    obtain ⟨inner, henter, hfits⟩ := fits_obj.mp hfits
    have hread : readMembers inner fuel (skipGaps (behind ++ rest)) = .ok (members, rest) :=
      h.members hmembers hfits (Nat.lt_of_succ_lt_succ hfuel)
    refine (readValue_obj henter (not_close_of_readMembers hread) rfl hread).trans ?_
    rw [Table.ofEntries_eq_self hnames]

theorem Reads.readItems (h : Reads fuel) {items : List Json}
    (hitems : EncodesItems items text) (hfits : ∀ v ∈ items, Fits limits v)
    (hfuel : text.length < fuel + 1) :
    readItems limits (fuel + 1) (skipGaps (text ++ rest)) = .ok (items, rest) := by
  cases hitems with
  | last hbefore hitem hafter =>
    simp only [List.length_append, List.length_cons, List.length_nil] at hfuel
    have hbehind := hafter.delimited (by decide : ']' ∈ delimiters) rest
    have hread := h.value hitem (hfits _ (by simp)) hbehind (by omega)
    simp only [List.append_assoc, List.singleton_append]
    rw [skipGaps_append hbefore, (starts_of_readValue hread).1]
    exact readItems_last hread (hafter.skipGaps_eq rfl rest)
  | @cons item items before text more hbefore hitem hmore =>
    obtain ⟨hfirst, hfits⟩ := List.forall_mem_cons.mp hfits
    simp only [List.length_append, List.length_cons] at hfuel
    have hread := h.value hitem hfirst
      (delimited_cons (by decide : ',' ∈ delimiters) (more ++ rest)) (by omega)
    simp only [List.append_assoc, List.cons_append]
    rw [skipGaps_append hbefore, (starts_of_readValue hread).1]
    exact readItems_cons hread rfl (h.items hmore hfits (by omega))

/-- A name in front of a value, and what is read of it. -/
theorem exists_name (ascii : Bool) (name : String) {between : List Char} (hbetween : Gaps between)
    (behind : List Char) : ∃ inner, renderString ascii name ++ ':' :: (between ++ behind)
        = '"' :: inner
      ∧ readString inner = .ok (name, ':' :: (between ++ behind))
      ∧ skipGaps (between ++ behind) = skipGaps behind := by
  obtain ⟨body, hbody, hread⟩ :=
    readString_renderString ascii name (':' :: (between ++ behind))
  exact ⟨_, by rw [hbody]; rfl, hread, skipGaps_append hbetween behind⟩

theorem Reads.readMembers (h : Reads fuel) {members : List (String × Json)}
    (hmembers : EncodesMembers members text) (hfits : ∀ e ∈ members, Fits limits e.2)
    (hfuel : text.length < fuel + 1) :
    readMembers limits (fuel + 1) (skipGaps (text ++ rest)) = .ok (members, rest) := by
  cases hmembers with
  | @last ascii name value before between text after hbefore hbetween hvalue hafter =>
    simp only [List.length_append, List.length_cons, List.length_nil] at hfuel
    have hbehind := hafter.delimited (by decide : '\x7d' ∈ delimiters) rest
    have hread := h.value hvalue (hfits (name, value) (by simp)) hbehind (by omega)
    obtain ⟨inner, hinner, hname, hgaps⟩ :=
      exists_name ascii name hbetween (text ++ (after ++ '\x7d' :: rest))
    simp only [List.append_assoc, List.cons_append, List.nil_append]
    rw [skipGaps_append hbefore, hinner, skipGaps_of_isGap rfl]
    refine readMembers_last hname (skipGaps_of_isGap rfl _) ?_ (hafter.skipGaps_eq rfl rest)
    rw [hgaps, (starts_of_readValue hread).1]
    exact hread
  | @cons ascii name value members before between text more hbefore hbetween hvalue hmore =>
    obtain ⟨hfirst, hfits⟩ := List.forall_mem_cons.mp hfits
    simp only [List.length_append, List.length_cons] at hfuel
    have hread := h.value hvalue hfirst
      (delimited_cons (by decide : ',' ∈ delimiters) (more ++ rest)) (by omega)
    obtain ⟨inner, hinner, hname, hgaps⟩ :=
      exists_name ascii name hbetween (text ++ ',' :: (more ++ rest))
    simp only [List.append_assoc, List.cons_append]
    rw [skipGaps_append hbefore, hinner, skipGaps_of_isGap rfl]
    refine readMembers_cons hname (skipGaps_of_isGap rfl _) ?_ (skipGaps_of_isGap rfl _)
      (h.members hmore hfits (by omega))
    rw [hgaps, (starts_of_readValue hread).1]
    exact hread

theorem reads (fuel : Nat) : Reads fuel := by
  induction fuel with
  | zero =>
    exact ⟨fun _ _ _ hfuel => absurd hfuel (Nat.not_lt_zero _),
      fun _ _ hfuel => absurd hfuel (Nat.not_lt_zero _),
      fun _ _ hfuel => absurd hfuel (Nat.not_lt_zero _)⟩
  | succ fuel ih => exact ⟨ih.readValue, ih.readItems, ih.readMembers⟩

/-- A text of a value is read as the value if the value keeps to the limits. -/
theorem read_of_encodes {nesting : Nat} {v : Json} (h : Encodes v text)
    (hfits : Fits ⟨some digitLimit, some nesting⟩ v) : read nesting text = .ok v := by
  have hend : Delimited [] := by simp [Delimited]
  have hread := (reads (text.length + 1)).value h hfits hend (Nat.lt_succ_self _)
  rw [List.append_nil] at hread
  rw [read, readWithin, (starts_of_readValue hread).1, hread]
  rfl

end RepoSurvey.Json
