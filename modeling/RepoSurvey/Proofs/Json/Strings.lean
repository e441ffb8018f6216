import Mathlib.Algebra.Group.Nat.Defs
import RepoSurvey.Json.Parser
import RepoSurvey.Json.Printer

/-!
# Strings as they are written

A string is written between quotation marks, with some characters escaped, and read character by
character.

* `Text.hexDigits_succ`: padded digits end with the last digit;
* `Json.readChars_unicodeEscape`: the four digits of an escape give their number;
* `Json.readChars_escapeChar`: each character is read back from its escaped form, by itself or by
  the two halves of a surrogate pair;
* `Json.readString_renderString`: so a string is read back, whatever follows it;
* `Json.isAscii_renderString`: with everything beyond ASCII escaped a string is ASCII.
-/

namespace RepoSurvey

/-! ## Hexadecimal digits -/

namespace Text

theorem hexValue?_digitChar {d : Nat} (h : d < 16) : hexValue? d.digitChar = some d := by
  have hall : ∀ d < 16, hexValue? d.digitChar = some d := by decide
  exact hall d h

theorem hexDigits_one {n : Nat} (h : n < 16) : hexDigits 1 n = [n.digitChar] := by
  rw [hexDigits, Nat.toDigits_of_lt_base h]
  rfl

theorem hexDigits_succ {width : Nat} (hwidth : 0 < width) (n : Nat) :
    hexDigits (width + 1) n = hexDigits width (n / 16) ++ [(n % 16).digitChar] := by
  rcases Nat.lt_or_ge n 16 with h | h
  · have hzero : List.replicate (width - 1) '0' ++ ['0'] = List.replicate width '0' := by
      rw [← List.replicate_succ', Nat.sub_add_cancel hwidth]
    rw [hexDigits, hexDigits, Nat.div_eq_of_lt h, Nat.mod_eq_of_lt h, Nat.toDigits_of_lt_base h,
      Nat.toDigits_of_lt_base (by decide)]
    exact congrArg (· ++ [n.digitChar]) hzero.symm
  · simp [hexDigits, Nat.toDigits_of_base_le (by decide : 1 < 16) h]

theorem exists_digitChar_of_mem_toDigits {base : Nat} (hbase : 1 < base) {c : Char} (n : Nat)
    (hc : c ∈ Nat.toDigits base n) : ∃ d < base, c = d.digitChar := by
  induction n using Nat.strongRecOn with
  | _ n ih =>
    rcases Nat.lt_or_ge n base with h | h
    · rw [Nat.toDigits_of_lt_base h] at hc
      exact ⟨n, h, List.mem_singleton.mp hc⟩
    · rw [Nat.toDigits_of_base_le hbase h] at hc
      rcases List.mem_append.mp hc with hc | hc
      · exact ih _ (Nat.div_lt_self (by omega) hbase) hc
      · exact ⟨n % base, Nat.mod_lt _ (by omega), List.mem_singleton.mp hc⟩

/-- There is nothing beyond ASCII in a text. -/
def IsAscii (text : List Char) : Prop := ∀ c ∈ text, c.toNat < 0x80

instance (text : List Char) : Decidable (IsAscii text) :=
  List.decidableBAll (fun c : Char => c.toNat < 0x80) text

@[simp] theorem isAscii_nil : IsAscii [] := by
  simp [IsAscii]

@[simp] theorem isAscii_cons {c : Char} {text : List Char} :
    IsAscii (c :: text) ↔ c.toNat < 0x80 ∧ IsAscii text :=
  List.forall_mem_cons

@[simp] theorem isAscii_append {text more : List Char} :
    IsAscii (text ++ more) ↔ IsAscii text ∧ IsAscii more :=
  List.forall_mem_append

theorem IsAscii.sublist {text more : List Char} (h : IsAscii more) (hsub : text.Sublist more) :
    IsAscii text :=
  fun c hc => h c (hsub.subset hc)

theorem isAscii_replicate (count : Nat) {c : Char} (h : c.toNat < 0x80) :
    IsAscii (List.replicate count c) := by
  intro d hd
  rwa [List.eq_of_mem_replicate hd]

theorem isAscii_toDigits {base : Nat} (hbase : 1 < base) (hmost : base ≤ 16) (n : Nat) :
    IsAscii (Nat.toDigits base n) := by
  intro c hc
  obtain ⟨d, hd, rfl⟩ := exists_digitChar_of_mem_toDigits hbase n hc
  have hall : ∀ d < 16, d.digitChar.toNat < 0x80 := by decide
  exact hall d (by omega)

theorem isAscii_hexDigits (width n : Nat) : IsAscii (hexDigits width n) :=
  isAscii_append.mpr ⟨isAscii_replicate _ (by decide), isAscii_toDigits (by decide) (by decide) n⟩

end Text

namespace Json

variable {read text : List Char} {high : Option Nat}

/-! ## Escapes by a number -/

/-- All digits of an escape but the last add up to their number. -/
theorem readChars_hexDigits {width left value n : Nat} (hwidth : 0 < width) (hleft : 0 < left)
    (hn : n < 16 ^ width) :
    readChars (.unicode (width + left) value high) read (Text.hexDigits width n ++ text)
      = readChars (.unicode left (value * 16 ^ width + n) high) read text := by
  induction width generalizing left n text with
  | zero => omega
  | succ width ih =>
    have hstep : ∀ more d : Nat, d < 16 →
        readChars (.unicode (left + 1) more high) read (d.digitChar :: text)
          = readChars (.unicode left (more * 16 + d) high) read text := by
      intro more d hd
      have hmany : ¬ left + 1 ≤ 1 := by omega
      simp [readChars, stringStep, Text.hexValue?_digitChar hd, hmany]
    rcases Nat.eq_zero_or_pos width with rfl | hpos
    · rw [Text.hexDigits_one (by simpa using hn), Nat.add_comm]
      simpa using hstep value n (by simpa using hn)
    · have hdiv : n / 16 < 16 ^ width := by
        rw [Nat.pow_succ] at hn
        omega
      have hvalue : (value * 16 ^ width + n / 16) * 16 + n % 16 = value * 16 ^ (width + 1) + n := by
        rw [Nat.pow_succ, Nat.add_mul, Nat.add_assoc, Nat.mul_assoc, Nat.div_add_mod']
      rw [Text.hexDigits_succ hpos, List.append_assoc, Nat.add_assoc, Nat.add_comm 1 left,
        ih hpos (Nat.succ_pos left) hdiv, List.singleton_append,
        hstep _ _ (Nat.mod_lt _ (by decide)), hvalue]

/-- A number escaped in four digits is read, behind the first half of a pair or without one. -/
theorem readChars_unicode {unit : Nat} (hunit : unit < 0x10000) :
    readChars (.unicode 4 0 high) read (Text.hexDigits 4 unit ++ text)
      = readChars (endEscape unit high).2 ((endEscape unit high).1 ++ read) text := by
  have hdiv : unit / 16 < 16 ^ 3 := by omega
  have hlast : (0 * 16 ^ 3 + unit / 16) * 16 + unit % 16 = unit := by omega
  rw [Text.hexDigits_succ (by decide), List.append_assoc,
    readChars_hexDigits (by decide) Nat.one_pos hdiv, List.singleton_append, readChars, stringStep,
    Text.hexValue?_digitChar (Nat.mod_lt _ (by decide))]
  simp only [hlast, Nat.le_refl, ↓reduceIte]

theorem readChars_unicodeEscape {unit : Nat} (hunit : unit < 0x10000) :
    readChars .plain read (unicodeEscape unit ++ text)
      = readChars (endEscape unit none).2 ((endEscape unit none).1 ++ read) text := by
  rw [← readChars_unicode hunit]
  simp [unicodeEscape, readChars, stringStep, plainStep, escapeStep]

theorem readChars_unicodeEscape_high {unit first : Nat} (hunit : unit < 0x10000) :
    readChars (.high first) read (unicodeEscape unit ++ text)
      = readChars (endEscape unit (some first)).2 ((endEscape unit (some first)).1 ++ read)
        text := by
  rw [← readChars_unicode hunit]
  simp [unicodeEscape, readChars, stringStep, escapeStep]

/-! ## Characters -/

/-- No character has the number of half a surrogate pair. -/
theorem toNat_ranges (c : Char) : c.toNat < 0xD800 ∨ 0xDFFF < c.toNat ∧ c.toNat < 0x110000 :=
  c.valid

theorem readChars_codeEscape (c : Char) :
    readChars .plain read (codeEscape c ++ text) = readChars .plain (c :: read) text := by
  rw [codeEscape]
  split
  · rename_i hsmall
    have hhigh : isHighUnit c.toNat = false := by
      rcases toNat_ranges c with h | h <;> simp [isHighUnit] <;> omega
    have hlow : isLowUnit c.toNat = false := by
      rcases toNat_ranges c with h | h <;> simp [isLowUnit] <;> omega
    rw [readChars_unicodeEscape hsmall]
    simp [endEscape, hhigh, hlow]
  · rename_i hlarge
    obtain ⟨n, hn⟩ : ∃ n, c.toNat = 0x10000 + n := ⟨c.toNat - 0x10000, by omega⟩
    have hbound : n < 0x100000 := by
      rcases toNat_ranges c with h | h <;> omega
    have hhigh : isHighUnit (0xD800 + n / 0x400) = true := by
      simp [isHighUnit]
      omega
    have hlow : isLowUnit (0xDC00 + n % 0x400) = true := by
      simp [isLowUnit]
      omega
    have hpair : 0x10000 + (0xD800 + n / 0x400 - 0xD800) * 0x400
        + (0xDC00 + n % 0x400 - 0xDC00) = c.toNat := by
      omega
    rw [hn, Nat.add_sub_cancel_left, List.append_assoc, readChars_unicodeEscape (by omega)]
    simp only [endEscape, hhigh, ↓reduceIte, List.nil_append]
    rw [readChars_unicodeEscape_high (by omega)]
    simp only [endEscape, hlow, ↓reduceIte, hpair, Char.ofNat_toNat, List.singleton_append]

/-- A character is read back from its escaped form, in either style. -/
theorem readChars_escapeChar (ascii : Bool) (c : Char) :
    readChars .plain read (escapeChar ascii c ++ text) = readChars .plain (c :: read) text := by
  by_cases hshort : c ∈ ['"', '\\', '\n', '\r', '\t', '\x0c', '\x08']
  · simp only [List.mem_cons, List.not_mem_nil, or_false] at hshort
    rcases hshort with rfl | rfl | rfl | rfl | rfl | rfl | rfl <;>
      simp [escapeChar, readChars, stringStep, plainStep, escapeStep, simpleEscape?]
  · simp only [List.mem_cons, List.not_mem_nil, or_false, not_or] at hshort
    obtain ⟨hquote, hslash, hline, hreturn, htab, hpage, hback⟩ := hshort
    simp only [escapeChar, hquote, hslash, hline, hreturn, htab, hpage, hback, ↓reduceIte]
    split
    · exact readChars_codeEscape c
    · rename_i hplain
      have hvisible : ¬ c.toNat < 0x20 := by
        simp at hplain
        omega
      simp [readChars, stringStep, plainStep, hquote, hslash, hvisible]

theorem readChars_flatMap_escapeChar (ascii : Bool) (chars : List Char) :
    readChars .plain read (chars.flatMap (escapeChar ascii) ++ '"' :: text)
      = .ok (String.ofList (read.reverse ++ chars), text) := by
  induction chars generalizing read with
  | nil => simp [readChars, stringStep, plainStep]
  | cons c chars ih =>
    rw [List.flatMap_cons, List.append_assoc, readChars_escapeChar, ih, List.reverse_cons,
      List.append_assoc, List.singleton_append]

/-- A string is read back, whatever follows its closing quotation mark. -/
theorem readString_renderString (ascii : Bool) (s : String) (text : List Char) :
    ∃ body, renderString ascii s = '"' :: body ∧ readString (body ++ text) = .ok (s, text) := by
  refine ⟨_, rfl, ?_⟩
  rw [readString, List.append_assoc, List.singleton_append, readChars_flatMap_escapeChar]
  simp

/-! ## Strings in ASCII -/

theorem isAscii_codeEscape (c : Char) : Text.IsAscii (codeEscape c) := by
  have hescape : ∀ unit, Text.IsAscii (unicodeEscape unit) := fun unit => by
    simp [unicodeEscape, Text.isAscii_hexDigits]
  rw [codeEscape]
  split
  · exact hescape _
  · exact Text.isAscii_append.mpr ⟨hescape _, hescape _⟩

theorem isAscii_escapeChar (c : Char) : Text.IsAscii (escapeChar true c) := by
  by_cases hshort : c ∈ ['"', '\\', '\n', '\r', '\t', '\x0c', '\x08']
  · simp only [List.mem_cons, List.not_mem_nil, or_false] at hshort
    rcases hshort with rfl | rfl | rfl | rfl | rfl | rfl | rfl <;> decide
  · simp only [List.mem_cons, List.not_mem_nil, or_false, not_or] at hshort
    obtain ⟨hquote, hslash, hline, hreturn, htab, hpage, hback⟩ := hshort
    simp only [escapeChar, hquote, hslash, hline, hreturn, htab, hpage, hback, ↓reduceIte]
    split
    · exact isAscii_codeEscape c
    · rename_i hplain
      simp at hplain ⊢
      omega

theorem isAscii_renderString (s : String) : Text.IsAscii (renderString true s) := by
  have hchars : Text.IsAscii (s.toList.flatMap (escapeChar true)) := by
    intro e he
    obtain ⟨c, _, he⟩ := List.mem_flatMap.mp he
    exact isAscii_escapeChar c e he
  simp [renderString, hchars]

end Json

end RepoSurvey
