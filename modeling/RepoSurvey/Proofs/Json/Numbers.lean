import Mathlib.Data.List.TakeWhile
import RepoSurvey.Proofs.Json.Strings

/-!
# Numbers and words as they are written

A number has no mark of its own at its end, so what follows a value matters.

* `Json.Delimited`: what may follow a value;
* `Json.readScalar_append`: what is read does not depend on it;
* `Json.readScalar_intText`: a whole number is read back if it does not have too many digits;
* `Binary64.ReadsBack`: the other numbers of which the same can be said.
-/

namespace RepoSurvey

/-! ## Decimal digits -/

namespace Text

theorem asciiNat_toDigits (n : Nat) : asciiNat (Nat.toDigits 10 n) = n := by
  have hfold : ∀ (chars : List Char) (start : Nat),
      (chars.map fun c => c.toNat - 48).foldl (fun n d => n * 10 + d) start
        = Nat.ofDigitChars 10 chars start := by
    intro chars
    induction chars with
    | nil => intro start; rfl
    | cons c chars ih =>
      intro start
      rw [List.map_cons, List.foldl_cons, ih, Nat.ofDigitChars_cons, Nat.mul_comm]
      rfl
  rw [asciiNat, ofDigits, hfold, Nat.ofDigitChars_toDigits (by decide) (by decide)]

/-- A positive number does not start with a zero. -/
theorem head?_toDigits_ne {n : Nat} (h : 0 < n) : (Nat.toDigits 10 n).head? ≠ some '0' := by
  induction n using Nat.strongRecOn with
  | _ n ih =>
    rcases Nat.lt_or_ge n 10 with hsmall | hlarge
    · have hall : ∀ d < 10, 0 < d → d.digitChar ≠ '0' := by decide
      rw [Nat.toDigits_of_lt_base hsmall]
      simpa using hall n hsmall h
    · have hdiv := ih (n / 10) (by omega) (by omega)
      obtain ⟨d, more, hcons⟩ := List.exists_cons_of_ne_nil (Nat.toDigits_ne_nil (n := n / 10))
      rw [hcons] at hdiv
      rwa [Nat.toDigits_of_base_le (by decide) hlarge, hcons]

theorem exists_toDigits_eq_cons (n : Nat) :
    ∃ d more, Nat.toDigits 10 n = d :: more ∧ d.isDigit = true ∧ (d = '0' → more = []) := by
  have hne : Nat.toDigits 10 n ≠ [] := Nat.toDigits_ne_nil
  obtain ⟨d, more, hcons⟩ := List.exists_cons_of_ne_nil hne
  have hmem : d ∈ Nat.toDigits 10 n := hcons ▸ List.mem_cons_self
  refine ⟨d, more, hcons, Nat.isDigit_of_mem_toDigits (by decide) (by decide) hmem, ?_⟩
  rintro rfl
  rcases Nat.eq_zero_or_pos n with rfl | hpos
  · exact (List.cons.inj hcons).2.symm
  · exact absurd (by rw [hcons]; rfl) (head?_toDigits_ne hpos)

end Text

namespace Json

variable {limits : Limits} {text rest : List Char}

/-! ## What follows a value -/

def delimiters : List Char := [',', ']', '\x7d', '\n']

/-- What may follow a value: nothing, or a text that starts with a delimiter. -/
def Delimited (rest : List Char) : Prop := ∀ c ∈ rest.head?, c ∈ delimiters

theorem delimited_cons {c : Char} (h : c ∈ delimiters) (rest : List Char) :
    Delimited (c :: rest) := by
  intro d hd
  cases hd
  exact h

/-- A delimiter is no part of a number. -/
theorem of_mem_delimiters {c : Char} (h : c ∈ delimiters) :
    c.isDigit = false ∧ c ∉ ['0', '.', 'e', 'E', '-', '+'] := by
  simp only [delimiters, List.mem_cons, List.not_mem_nil, or_false] at h
  rcases h with rfl | rfl | rfl | rfl <;> decide

theorem Delimited.cases (h : Delimited rest) :
    rest = [] ∨ ∃ c more, rest = c :: more ∧ c ∈ delimiters := by
  cases rest with
  | nil => exact Or.inl rfl
  | cons c more => exact Or.inr ⟨c, more, rfl, h c rfl⟩

theorem takeWhile_isDigit_append (h : Delimited rest) (text : List Char) :
    (text ++ rest).takeWhile Char.isDigit = text.takeWhile Char.isDigit := by
  induction text with
  | nil =>
    rcases h.cases with rfl | ⟨c, more, rfl, hc⟩
    · rfl
    · simp [(of_mem_delimiters hc).1]
  | cons c text ih =>
    rw [List.cons_append, List.takeWhile_cons, List.takeWhile_cons, ih]

theorem dropWhile_isDigit_append (h : Delimited rest) (text : List Char) :
    (text ++ rest).dropWhile Char.isDigit = text.dropWhile Char.isDigit ++ rest := by
  induction text with
  | nil =>
    rcases h.cases with rfl | ⟨c, more, rfl, hc⟩
    · rfl
    · simp [(of_mem_delimiters hc).1]
  | cons c text ih =>
    rw [List.cons_append, List.dropWhile_cons, List.dropWhile_cons, ih]
    split <;> rfl

/-! ## The parts of a number -/

theorem wholePart_append (h : Delimited rest) (text : List Char) :
    wholePart (text ++ rest) = (wholePart text).map (Prod.map id (· ++ rest)) := by
  cases text with
  | nil =>
    rcases h.cases with rfl | ⟨c, more, rfl, hc⟩
    · rfl
    · obtain ⟨hdigit, hother⟩ := of_mem_delimiters hc
      simp only [List.mem_cons, not_or] at hother
      simp [wholePart, hdigit, hother]
  | cons c text =>
    by_cases hzero : c = '0'
    · subst hzero
      rfl
    · rw [List.cons_append]
      simp only [wholePart]
      rw [← List.cons_append, takeWhile_isDigit_append h, dropWhile_isDigit_append h]
      split <;> rfl

theorem fractionPart_append (h : Delimited rest) (text : List Char) :
    fractionPart (text ++ rest) = (fractionPart text).map (Prod.map id (· ++ rest)) := by
  cases text with
  | nil =>
    rcases h.cases with rfl | ⟨c, more, rfl, hc⟩
    · rfl
    · have hother := (of_mem_delimiters hc).2
      simp only [List.mem_cons, not_or] at hother
      simp [fractionPart, hother]
  | cons c text =>
    by_cases hpoint : c = '.'
    · subst hpoint
      rw [List.cons_append]
      simp only [fractionPart]
      rw [takeWhile_isDigit_append h, dropWhile_isDigit_append h]
      split <;> rfl
    · simp [fractionPart, hpoint]

theorem signPart_append (h : Delimited rest) (text : List Char) :
    signPart (text ++ rest) = (signPart text).map id (· ++ rest) := by
  cases text with
  | nil =>
    rcases h.cases with rfl | ⟨c, more, rfl, hc⟩
    · rfl
    · have hother := (of_mem_delimiters hc).2
      simp only [List.mem_cons, not_or] at hother
      simp [signPart, hother]
  | cons c text =>
    by_cases hminus : c = '-'
    · subst hminus
      rfl
    · by_cases hplus : c = '+'
      · subst hplus
        rfl
      · simp [signPart, hminus, hplus]

theorem exponentPart_append (h : Delimited rest) (text : List Char) :
    exponentPart (text ++ rest) = (exponentPart text).map (Prod.map id (· ++ rest)) := by
  cases text with
  | nil =>
    rcases h.cases with rfl | ⟨c, more, rfl, hc⟩
    · rfl
    · have hother := (of_mem_delimiters hc).2
      simp only [List.mem_cons, not_or] at hother
      simp [exponentPart, hother]
  | cons c text =>
    by_cases hmark : c = 'e' ∨ c = 'E'
    · rw [List.cons_append]
      simp only [exponentPart, hmark, ↓reduceIte, signPart_append h, Prod.map_fst, Prod.map_snd,
        takeWhile_isDigit_append h, dropWhile_isDigit_append h]
      split <;> rfl
    · simp [exponentPart, hmark]

/-- What is read of a number does not depend on what follows it. -/
theorem readUnsigned_append (h : Delimited rest) {negative : Bool} {value : Json}
    {left : List Char} (hread : readUnsigned limits negative text = .ok (value, left)) :
    readUnsigned limits negative (text ++ rest) = .ok (value, left ++ rest) := by
  rw [readUnsigned, wholePart_append h]
  rw [readUnsigned] at hread
  cases hwhole : wholePart text with
  | none => simp [hwhole] at hread
  | some w =>
    obtain ⟨whole, afterWhole⟩ := w
    rw [hwhole] at hread
    simp only [Option.map_some, Prod.map, id_eq, fractionPart_append h] at hread ⊢
    cases hfraction : fractionPart afterWhole with
    | none =>
      cases hexponent : exponentPart afterWhole with
      | none =>
        by_cases hdigits : limits.allowsDigits whole.length <;>
          simp_all [exponentPart_append h]
      | some e => simp_all [exponentPart_append h]
    | some f =>
      obtain ⟨digits, afterFraction⟩ := f
      cases hexponent : exponentPart afterFraction <;>
        simp_all [exponentPart_append h]

theorem readNumber_of_ne {c : Char} (h : c ≠ '-') (text : List Char) :
    readNumber limits (c :: text) = readUnsigned limits false (c :: text) := by
  rw [readNumber]
  intro rest heq
  exact h (List.cons.inj heq).1

theorem readNumber_append (h : Delimited rest) {value : Json} {left : List Char}
    (hread : readNumber limits text = .ok (value, left)) :
    readNumber limits (text ++ rest) = .ok (value, left ++ rest) := by
  cases text with
  | nil => cases hread
  | cons c text =>
    by_cases hminus : c = '-'
    · subst hminus
      exact readUnsigned_append h hread
    · rw [readNumber_of_ne hminus] at hread
      rw [List.cons_append, readNumber_of_ne hminus]
      exact readUnsigned_append h hread

/-! ## Words and numbers -/

theorem isPrefixOf_append {word : List Char} (hword : (word.any delimiters.contains) = false)
    (h : Delimited rest) (text : List Char) :
    word.isPrefixOf (text ++ rest) = word.isPrefixOf text := by
  induction word generalizing text with
  | nil => simp
  | cons c word ih =>
    obtain ⟨hc, hword⟩ := Bool.or_eq_false_iff.mp hword
    cases text with
    | nil =>
      rcases h.cases with rfl | ⟨d, more, rfl, hd⟩
      · rfl
      · have hne : c ≠ d := by
          rintro rfl
          rw [List.contains_iff_mem.mpr hd] at hc
          cases hc
        simp [List.isPrefixOf, hne]
    | cons d text => simp [List.isPrefixOf, ih hword]

theorem find?_words_append (h : Delimited rest) (text : List Char) :
    words.find? (fun w => w.1.isPrefixOf (text ++ rest))
      = words.find? (fun w => w.1.isPrefixOf text) := by
  have hwords : (words.any fun w => w.1.any delimiters.contains) = false := by decide
  have hsame : ∀ w ∈ words, w.1.isPrefixOf (text ++ rest) = w.1.isPrefixOf text := fun w hw =>
    isPrefixOf_append (by simpa using List.any_eq_false.mp hwords w hw) h text
  rw [← List.head?_filter, List.filter_congr hsame, List.head?_filter]

/-- What is read of a word or a number does not depend on what follows it. -/
theorem readScalar_append (h : Delimited rest) {value : Json} {left : List Char}
    (hread : readScalar limits text = .ok (value, left)) :
    readScalar limits (text ++ rest) = .ok (value, left ++ rest) := by
  rw [readScalar] at hread ⊢
  rw [find?_words_append h]
  cases hfind : words.find? (fun w => w.1.isPrefixOf text) with
  | none =>
    rw [hfind] at hread
    exact readNumber_append h hread
  | some w =>
    have hword : w.1 <+: text := List.isPrefixOf_iff_prefix.mp
      (List.find?_some (p := fun w : List Char × Json => w.1.isPrefixOf text) hfind)
    rw [hfind] at hread
    cases hread
    exact congrArg (fun left => Except.ok (w.2, left))
      (List.drop_append_of_le_length hword.length_le)

/-- A word or a number starts with none of these. -/
theorem readScalar_eq_malformed {c : Char} (h : c ∈ [' ', '\t', '\n', '\r', '"', '[', ']', '\x7b'])
    (text : List Char) : readScalar limits (c :: text) = .error .malformed := by
  simp only [List.mem_cons, List.not_mem_nil, or_false] at h
  rcases h with rfl | rfl | rfl | rfl | rfl | rfl | rfl | rfl <;>
    simp [readScalar, words, readNumber, readUnsigned, wholePart]

/-! ## Whole numbers -/

theorem wholePart_toDigits (n : Nat) :
    wholePart (Nat.toDigits 10 n) = some (Nat.toDigits 10 n, []) := by
  obtain ⟨d, more, hcons, hdigit, hzero⟩ := Text.exists_toDigits_eq_cons n
  have hdigits : ∀ c ∈ d :: more, c.isDigit = true := fun c hc =>
    Nat.isDigit_of_mem_toDigits (by decide) (by decide) (hcons ▸ hc)
  rw [hcons]
  by_cases hd : d = '0'
  · rw [hd, hzero hd]
    rfl
  · simp only [wholePart, hdigit, ↓reduceIte, List.takeWhile_eq_self_iff.mpr hdigits,
      List.dropWhile_eq_nil_iff.mpr hdigits]

theorem readUnsigned_toDigits (negative : Bool) {n : Nat}
    (hlimit : limits.allowsDigits (Nat.toDigits 10 n).length = true) :
    readUnsigned limits negative (Nat.toDigits 10 n)
      = .ok (.int (if negative then -n else n), []) := by
  rw [readUnsigned, wholePart_toDigits]
  simp [fractionPart, exponentPart, hlimit, Text.asciiNat_toDigits]

/-- The sign in front of a number. -/
def minus (negative : Bool) : List Char := if negative then ['-'] else []

/-- A number does not start as a word does. -/
theorem find?_words_digit {d : Char} (hdigit : d.isDigit = true) (negative : Bool)
    (more : List Char) :
    words.find? (fun w => w.1.isPrefixOf (minus negative ++ d :: more)) = none := by
  have hne : ∀ c : Char, c.isDigit = false → c ≠ d := by
    rintro c hc rfl
    rw [hc] at hdigit
    cases hdigit
  cases negative with
  | true => simp [minus, words, List.isPrefixOf, hne 'I' rfl]
  | false =>
    simp [minus, words, List.isPrefixOf, hne 'n' rfl, hne 't' rfl, hne 'f' rfl, hne 'N' rfl,
      hne 'I' rfl, hne '-' rfl]

/-- A text that starts with a digit, behind a sign or without one, is a number. -/
theorem readScalar_digit {d : Char} (hdigit : d.isDigit = true) (negative : Bool)
    (more : List Char) :
    readScalar limits (minus negative ++ d :: more) = readUnsigned limits negative (d :: more) := by
  rw [readScalar, find?_words_digit hdigit]
  cases negative with
  | true => rfl
  | false =>
    refine readNumber_of_ne ?_ more
    rintro rfl
    cases hdigit

/-- A whole number is read back if it does not have too many digits. -/
theorem readScalar_intText {n : Int}
    (hlimit : limits.allowsDigits (Nat.toDigits 10 n.natAbs).length = true) :
    readScalar limits (intText n) = .ok (.int n, []) := by
  obtain ⟨d, more, hcons, hdigit, _⟩ := Text.exists_toDigits_eq_cons n.natAbs
  have hread : ∀ negative, readScalar limits (minus negative ++ Nat.toDigits 10 n.natAbs)
      = .ok (.int (if negative then -n.natAbs else n.natAbs), []) := fun negative => by
    rw [← readUnsigned_toDigits negative hlimit, hcons]
    exact readScalar_digit hdigit negative more
  rw [intText]
  by_cases hnegative : n < 0
  · have hvalue : -(n.natAbs : Int) = n := by omega
    rw [if_pos hnegative]
    exact (hread true).trans (by rw [if_pos rfl, hvalue])
  · have hvalue : (n.natAbs : Int) = n := by omega
    rw [if_neg hnegative]
    exact (hread false).trans (by rw [if_neg Bool.false_ne_true, hvalue])

end Json

/-! ## Other numbers -/

/-- The number that a text writes, if it is not a whole number. -/
def Json.readFloat? (text : List Char) : Option Binary64 :=
  match Json.readScalar {} text with
  | .ok (.float x, []) => some x
  | _ => none

/-- A number that is read back from its text. -/
def Binary64.ReadsBack (x : Binary64) : Prop := Json.readFloat? (Json.floatText x) = some x

instance (x : Binary64) : Decidable x.ReadsBack :=
  inferInstanceAs (Decidable (Json.readFloat? (Json.floatText x) = some x))

namespace Json

variable {limits : Limits} {text left : List Char} {x : Binary64}

theorem readUnsigned_float_within {negative : Bool}
    (h : readUnsigned {} negative text = .ok (.float x, left)) :
    readUnsigned limits negative text = .ok (.float x, left) := by
  rw [readUnsigned] at h ⊢
  cases hwhole : wholePart text with
  | none => simp [hwhole] at h
  | some w =>
    obtain ⟨whole, rest⟩ := w
    rw [hwhole] at h
    by_cases hint : (fractionPart rest).isNone
        && (exponentPart ((fractionPart rest).getD ([], rest)).2).isNone
    · simp [hint, Limits.allowsDigits] at h
    · simp only [hint, Bool.false_eq_true, ↓reduceIte] at h ⊢
      exact h

/-- A limit to the digits is for whole numbers only. -/
theorem readScalar_float_within (h : readScalar {} text = .ok (.float x, left)) :
    readScalar limits text = .ok (.float x, left) := by
  rw [readScalar] at h ⊢
  split
  · rename_i hfind
    rwa [hfind] at h
  · rename_i hfind
    rw [hfind] at h
    cases text with
    | nil => cases h
    | cons c text =>
      by_cases hminus : c = '-'
      · subst hminus
        exact readUnsigned_float_within h
      · rw [readNumber_of_ne hminus] at h ⊢
        exact readUnsigned_float_within h

theorem readScalar_floatText (h : x.ReadsBack) :
    readScalar limits (floatText x) = .ok (.float x, []) := by
  refine readScalar_float_within ?_
  unfold Binary64.ReadsBack readFloat? at h
  split at h
  · rename_i hread
    cases h
    exact hread
  · cases h

end Json

/-! ## Numbers in ASCII -/

namespace Binary64

open Text

theorem isAscii_exponentText (exponent : Int) : IsAscii (exponentText layout exponent) := by
  rw [exponentText, isAscii_cons, isAscii_append]
  refine ⟨?_, isAscii_replicate _ (by decide), isAscii_toDigits (by decide) (by decide) _⟩
  split <;> decide

theorem isAscii_dropZeros {digits : List Char} (h : IsAscii digits) :
    IsAscii (dropZeros digits) := by
  intro c hc
  exact h c (List.mem_reverse.mp ((List.dropWhile_sublist _).subset (List.mem_reverse.mp hc)))

theorem isAscii_layOut {digits : List Char} (h : IsAscii digits) (lead : Int) :
    IsAscii (layOut layout digits lead) := by
  have hsignificant := isAscii_dropZeros h
  have hzeros : ∀ count, IsAscii (List.replicate count '0') :=
    fun count => isAscii_replicate count (by decide)
  rw [layOut]
  split
  · split
    · simp [hzeros, hsignificant]
    · have hpadded := fun count => isAscii_append.mpr ⟨hsignificant, hzeros count⟩
      refine isAscii_append.mpr ⟨(hpadded _).sublist (List.take_sublist _ _),
        isAscii_cons.mpr ⟨by decide, ?_⟩⟩
      split
      · decide
      · exact (hpadded _).sublist (List.drop_sublist _ _)
  · split
    · exact isAscii_nil
    · rename_i d rest hcons
      rw [hcons, isAscii_cons] at hsignificant
      refine isAscii_cons.mpr ⟨hsignificant.1, isAscii_append.mpr ⟨?_, ?_⟩⟩
      · split
        · exact isAscii_nil
        · exact isAscii_cons.mpr ⟨by decide, hsignificant.2⟩
      · exact isAscii_cons.mpr ⟨by decide, isAscii_exponentText lead⟩

theorem isAscii_text (x : Binary64) : IsAscii x.text := by
  cases x with
  | nan => decide
  | infinite negative => cases negative <;> decide
  | finite negative mantissa exponent =>
    refine isAscii_append.mpr ⟨by split <;> decide, ?_⟩
    split
    · decide
    · exact isAscii_layOut (isAscii_toDigits (by decide) (by decide) _) _

end Binary64

namespace Json

theorem isAscii_floatText (x : Binary64) : Text.IsAscii (floatText x) := by
  cases x with
  | nan => decide
  | infinite negative => cases negative <;> decide
  | finite negative mantissa exponent =>
    exact Binary64.isAscii_text (.finite negative mantissa exponent)

theorem isAscii_intText (n : Int) : Text.IsAscii (intText n) :=
  Text.isAscii_append.mpr ⟨by split <;> decide, Text.isAscii_toDigits (by decide) (by decide) _⟩

end Json

end RepoSurvey
