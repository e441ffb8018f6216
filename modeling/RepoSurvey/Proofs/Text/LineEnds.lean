import Mathlib.Data.Char
import Mathlib.Tactic.SplitIfs
import RepoSurvey.Text.Lines
import RepoSurvey.Text.Utf8

/-!
# Line ends

A line may end in a line feed or in a carriage return and a line feed. Both read the same.

* `putBefore`: something put before every occurrence of a mark;
* `Utf8.decode_eq_readFrom`: decoding, byte by byte from a state;
* `Utf8.lenient_withReturns`, `Utf8.strict_withReturns`: carriage returns put before the line feeds
  of some bytes are put before those of the text, whatever is ill-formed in it;
* `Utf8.SameLines`: bytes that differ at most in how their lines end;
* `SameLines.readsAlike`: both readings of them are the same.
-/

namespace RepoSurvey

/-- A list with something put before every occurrence of a mark. -/
def putBefore {α : Type} [DecidableEq α] (mark new : α) (items : List α) : List α :=
  items.flatMap fun a => if a = mark then [new, mark] else [a]

section PutBefore

variable {α β : Type} [DecidableEq α] [DecidableEq β] {mark new : α}

@[simp] theorem putBefore_nil (mark new : α) : putBefore mark new [] = [] := rfl

@[simp] theorem putBefore_cons_self (mark new : α) (items : List α) :
    putBefore mark new (mark :: items) = new :: mark :: putBefore mark new items := by
  simp [putBefore]

theorem putBefore_cons_of_ne {a : α} (h : a ≠ mark) (items : List α) :
    putBefore mark new (a :: items) = a :: putBefore mark new items := by
  simp [putBefore, h]

theorem putBefore_append (mark new : α) (front back : List α) :
    putBefore mark new (front ++ back) = putBefore mark new front ++ putBefore mark new back :=
  List.flatMap_append

/-- Where the mark does not occur nothing is put. -/
theorem putBefore_eq_self {items : List α} (h : mark ∉ items) :
    putBefore mark new items = items := by
  induction items with
  | nil => rfl
  | cons a items ih =>
    obtain ⟨ha, hitems⟩ := not_or.mp fun hmem => h (List.mem_cons.mpr hmem)
    rw [putBefore_cons_of_ne (Ne.symm ha), ih hitems]

theorem all_putBefore {p : α → Bool} (hnew : p new = true) (items : List α) :
    (putBefore mark new items).all p = items.all p := by
  induction items with
  | nil => rfl
  | cons a items ih =>
    by_cases ha : a = mark
    · simp [ha, ih, hnew]
    · simp [putBefore_cons_of_ne ha, ih]

/-- A function under which nothing else becomes the mark. -/
theorem map_putBefore {f : α → β} (hf : ∀ a, f a = f mark → a = mark) (items : List α) :
    (putBefore mark new items).map f = putBefore (f mark) (f new) (items.map f) := by
  induction items with
  | nil => rfl
  | cons a items ih =>
    by_cases ha : a = mark
    · rw [ha, putBefore_cons_self, List.map_cons, List.map_cons, List.map_cons,
        putBefore_cons_self, ih]
    · rw [putBefore_cons_of_ne ha, List.map_cons, List.map_cons,
        putBefore_cons_of_ne fun h => ha (hf a h), ih]

end PutBefore

/-! ## Texts -/

namespace Text

/-- The text with a carriage return before every line feed. -/
def withReturns (text : List Char) : List Char := putBefore '\n' '\r' text

/-- A piece of a text has no other characters than the text. -/
theorem mem_of_mem_splitAtEvery {p : Char → Bool} {text piece : List Char}
    (hpiece : piece ∈ splitAtEvery p text) : ∀ c ∈ piece, c ∈ text := by
  induction text generalizing piece with
  | nil => simp_all
  | cons d text ih =>
    rw [splitAtEvery_cons] at hpiece
    split at hpiece
    · rcases List.mem_cons.mp hpiece with rfl | hpiece
      · simp
      · exact fun c hc => List.mem_cons_of_mem d (ih hpiece c hc)
    · cases hs : splitAtEvery p text with
      | nil => exact absurd hs (splitAtEvery_ne_nil p text)
      | cons line rest =>
        rw [hs] at hpiece ih
        rcases List.mem_cons.mp hpiece with rfl | hpiece
        · intro c hc
          rcases List.mem_cons.mp hc with rfl | hc
          · exact List.mem_cons_self
          · exact List.mem_cons_of_mem d (ih List.mem_cons_self c hc)
        · exact fun c hc => List.mem_cons_of_mem d (ih (List.mem_cons_of_mem line hpiece) c hc)

theorem unixNewlines_cons (c : Char) (text : List Char) : unixNewlines (c :: text)
    = if c = '\r' then if text.head? = some '\n' then unixNewlines text
        else '\n' :: unixNewlines text
      else c :: unixNewlines text := by
  cases text with
  | nil =>
    by_cases hc : c = '\r'
    · simp [unixNewlines, hc]
    · simp [unixNewlines, hc]
  | cons d text =>
    by_cases hc : c = '\r'
    · by_cases hd : d = '\r'
      · simp [unixNewlines, hc, hd]
      · simp [unixNewlines, hc, hd]
    · simp [unixNewlines, hc]

theorem unixNewlines_append {front : List Char} (h : '\r' ∉ front) (rest : List Char) :
    unixNewlines (front ++ rest) = front ++ unixNewlines rest := by
  induction front with
  | nil => rfl
  | cons c front ih =>
    obtain ⟨hc, hfront⟩ := not_or.mp fun hmem => h (List.mem_cons.mpr hmem)
    rw [List.cons_append, unixNewlines_cons, if_neg (Ne.symm hc), ih hfront, List.cons_append]

theorem unixNewlines_eq_self {text : List Char} (h : '\r' ∉ text) : unixNewlines text = text := by
  have hnil : unixNewlines [] = [] := rfl
  have happend := unixNewlines_append h []
  rwa [hnil, List.append_nil] at happend

/-- Lines that end in a carriage return and a line feed are read as lines that end in a line
feed. -/
theorem unixNewlines_withReturns {text : List Char} (h : '\r' ∉ text) :
    unixNewlines (withReturns text) = text := by
  unfold withReturns
  induction text with
  | nil => rfl
  | cons c text ih =>
    obtain ⟨hc, htext⟩ := not_or.mp fun hmem => h (List.mem_cons.mpr hmem)
    by_cases hend : c = '\n'
    · rw [hend, putBefore_cons_self, unixNewlines_cons, if_pos rfl, List.head?_cons, if_pos rfl,
        unixNewlines_cons, if_neg (by decide), ih htext]
    · rw [putBefore_cons_of_ne hend, unixNewlines_cons, if_neg (Ne.symm hc), ih htext]

end Text

/-! ## Bytes -/

namespace Utf8

/-- The bytes with a carriage return before every line feed. -/
def withReturns (bytes : List UInt8) : List UInt8 := putBefore 0x0A 0x0D bytes

/-- What is read from a state on. -/
def readFrom : State → List UInt8 → List (Option Char)
  | s, [] => finish s
  | s, b :: rest => (step s b.toNat).1 ++ readFrom (step s b.toNat).2 rest

theorem decode_eq_readFrom (bytes : List UInt8) : decode bytes = readFrom .start bytes := by
  have hfold : ∀ (read : List (Option Char)) (s : State),
      let r := bytes.foldl (fun r b =>
        ((step r.2 b.toNat).1.reverse ++ r.1, (step r.2 b.toNat).2)) (read, s)
      (finish r.2 ++ r.1).reverse = read.reverse ++ readFrom s bytes := by
    induction bytes with
    | nil =>
      intro read s
      cases s <;> simp [readFrom, finish]
    | cons b rest ih =>
      intro read s
      dsimp only
      rw [List.foldl_cons, readFrom]
      refine (ih _ _).trans ?_
      rw [List.reverse_append, List.reverse_reverse, List.append_assoc]
  exact hfold [] .start

/-- What a character begun can become is no ASCII character: the least of the bytes that may come
next leaves it large enough, at the latest with another byte after it. -/
def State.Wide : State → Prop
  | .start => True
  | .begun owed low _ bits => 0x80 ≤ low ∧
      (0x80 ≤ bits * 64 + (low - 0x80) ∨ 2 ≤ owed ∧ 2 ≤ bits * 64 + (low - 0x80))

theorem wide_start : State.start.Wide := trivial

theorem wide_firstByte (b : Nat) : (firstByte b).2.Wide := by
  unfold firstByte
  split_ifs <;> simp only [State.Wide] <;> omega

/-- A first byte beyond ASCII gives nothing to read yet, or is ill-formed. -/
theorem eq_none_of_mem_firstByte {b : Nat} (hb : 0x80 ≤ b) {c : Option Char}
    (hc : c ∈ (firstByte b).1) : c = none := by
  unfold firstByte at hc
  rw [if_neg (by omega)] at hc
  split_ifs at hc <;> simp_all

theorem wide_step {s : State} (h : s.Wide) (b : Nat) : (step s b).2.Wide := by
  cases s with
  | start => exact wide_firstByte b
  | begun owed low high bits =>
    obtain ⟨hlow, hwide⟩ := h
    rw [step]
    split
    · rename_i hb
      dsimp only
      split
      · exact trivial
      · exact ⟨by omega, by omega⟩
    · exact wide_firstByte b

/-- An ASCII byte is read as itself, and ends the character begun before it. -/
theorem step_ascii {s : State} (h : s.Wide) {b : Nat} (hb : b < 0x80) :
    step s b = (finish s ++ [some (Char.ofNat b)], .start) := by
  cases s with
  | start => exact if_pos hb
  | begun owed low high bits =>
    have hlow := h.1
    have hrange : ¬ (low ≤ b ∧ b ≤ high) := by omega
    rw [step, if_neg hrange, firstByte, if_pos hb]
    rfl

theorem toNat_ofNat {n : Nat} (h : n.isValidChar) : (Char.ofNat n).toNat = n := by
  rw [Char.ofNat, dif_pos h]
  rfl

/-- A number beyond ASCII makes no ASCII character but the null character, which stands for the
numbers that make none. -/
theorem ofNat_ne {n : Nat} (hn : 0x80 ≤ n) {c : Char} (hpos : 0 < c.toNat) (hc : c.toNat < 0x80) :
    Char.ofNat n ≠ c := by
  rintro rfl
  by_cases hvalid : n.isValidChar
  · rw [toNat_ofNat hvalid] at hc
    omega
  · rw [Char.ofNat, dif_neg hvalid] at hpos
    exact absurd hpos (by decide)

section Ascii

variable {c : Char} (hpos : 0 < c.toNat) (hc : c.toNat < 0x80)

include hpos hc

/-- An ASCII character is read from the byte that it is, and from no other. -/
theorem eq_toNat_of_mem_step {s : State} (h : s.Wide) {b : Nat} (hmem : some c ∈ (step s b).1) :
    b = c.toNat := by
  by_cases hb : b < 0x80
  · rw [step_ascii h hb, List.mem_append, List.mem_singleton, Option.some.injEq] at hmem
    rcases hmem with hfinish | rfl
    · cases s <;> simp [finish] at hfinish
    · exact (toNat_ofNat (Or.inl (by omega))).symm
  have hfirst : some c ∉ (firstByte b).1 := fun hmem => by
    cases eq_none_of_mem_firstByte (by omega) hmem
  cases s with
  | start => exact absurd hmem hfirst
  | begun owed low high bits =>
    obtain ⟨hlow, hwide⟩ := h
    rw [step] at hmem
    split at hmem
    · dsimp only at hmem
      split at hmem
      · have hread := Option.some.inj (List.mem_singleton.mp hmem)
        exact absurd hread.symm (ofNat_ne (by omega) hpos hc)
      · cases hmem
    · rcases List.mem_cons.mp hmem with heq | hmem
      · cases heq
      · exact absurd hmem hfirst

theorem exists_of_mem_readFrom {s : State} (h : s.Wide) {bytes : List UInt8}
    (hmem : some c ∈ readFrom s bytes) : ∃ b ∈ bytes, b.toNat = c.toNat := by
  induction bytes generalizing s with
  | nil => cases s <;> simp [readFrom, finish] at hmem
  | cons b rest ih =>
    rw [readFrom, List.mem_append] at hmem
    rcases hmem with hread | hmem
    · exact ⟨b, List.mem_cons_self, eq_toNat_of_mem_step hpos hc h hread⟩
    · obtain ⟨b', hb', heq⟩ := ih (wide_step h _) hmem
      exact ⟨b', List.mem_cons_of_mem _ hb', heq⟩

end Ascii

/-- Where no byte is an ASCII character, the character is not read. -/
theorem ascii_notMem_lenient {c : Char} (hpos : 0 < c.toNat) (hc : c.toNat < 0x80)
    {bytes : List UInt8} (h : ∀ b ∈ bytes, b.toNat ≠ c.toNat) : c ∉ lenient bytes := by
  intro hmem
  obtain ⟨read, hread, heq⟩ := List.mem_map.mp hmem
  cases read with
  | none =>
    obtain rfl : '\ufffd' = c := heq
    exact absurd hc (by decide)
  | some d =>
    obtain rfl : d = c := heq
    rw [decode_eq_readFrom] at hread
    obtain ⟨b, hb, hnat⟩ := exists_of_mem_readFrom hpos hc wide_start hread
    exact h b hb hnat

/-- Where no byte is a carriage return, none is read. -/
theorem return_notMem_lenient {bytes : List UInt8} (h : 0x0D ∉ bytes) : '\r' ∉ lenient bytes := by
  refine ascii_notMem_lenient (by decide) (by decide) ?_
  rintro b hb hnat
  obtain rfl : b = 0x0D := UInt8.toNat_inj.mp hnat
  exact h hb

/-- Where no byte is a line feed, none is read. -/
theorem feed_notMem_lenient {bytes : List UInt8} (h : 0x0A ∉ bytes) : '\n' ∉ lenient bytes := by
  refine ascii_notMem_lenient (by decide) (by decide) ?_
  rintro b hb hnat
  obtain rfl : b = 0x0A := UInt8.toNat_inj.mp hnat
  exact h hb

theorem readFrom_withReturns {s : State} (h : s.Wide) (bytes : List UInt8) :
    readFrom s (withReturns bytes) = putBefore (some '\n') (some '\r') (readFrom s bytes) := by
  unfold withReturns
  induction bytes generalizing s with
  | nil =>
    refine (putBefore_eq_self ?_).symm
    cases s <;> simp [readFrom, finish]
  | cons b rest ih =>
    by_cases hb : b = 0x0A
    · have hfinish : some '\n' ∉ finish s := by cases s <;> simp [finish]
      have hfeed : ∀ {s : State}, s.Wide →
          step s (0x0A : UInt8).toNat = (finish s ++ [some '\n'], .start) :=
        fun h => step_ascii h (by decide)
      have hreturn : step s (0x0D : UInt8).toNat = (finish s ++ [some '\r'], .start) :=
        step_ascii h (by decide)
      rw [hb, putBefore_cons_self]
      simp only [readFrom, hreturn, hfeed h, hfeed wide_start]
      rw [ih wide_start, putBefore_append, putBefore_append, putBefore_eq_self hfinish]
      simp [finish]
    · have hread : some '\n' ∉ (step s b.toNat).1 := fun hmem =>
        hb (UInt8.toNat_inj.mp (eq_toNat_of_mem_step (by decide) (by decide) h hmem))
      rw [putBefore_cons_of_ne hb, readFrom, readFrom, ih (wide_step h _), putBefore_append,
        putBefore_eq_self hread]

theorem decode_withReturns (bytes : List UInt8) :
    decode (withReturns bytes) = putBefore (some '\n') (some '\r') (decode bytes) := by
  rw [decode_eq_readFrom, decode_eq_readFrom, readFrom_withReturns wide_start]

theorem lenient_withReturns (bytes : List UInt8) :
    lenient (withReturns bytes) = Text.withReturns (lenient bytes) := by
  rw [lenient, decode_withReturns, map_putBefore]
  · rfl
  · rintro (_ | c) heq
    · exact absurd heq (by decide)
    · exact congrArg some heq

theorem strict_eq (bytes : List UInt8) :
    strict bytes = if (decode bytes).all Option.isSome then some (lenient bytes) else none := by
  split
  · rename_i hall
    have hstrict : strict bytes = some ((decode bytes).filterMap id) := if_pos hall
    rw [hstrict, lenient_eq_of_strict hstrict]
  · rename_i hall
    exact if_neg hall

theorem strict_withReturns (bytes : List UInt8) :
    strict (withReturns bytes) = (strict bytes).map Text.withReturns := by
  rw [strict_eq, strict_eq, decode_withReturns, all_putBefore rfl, lenient_withReturns]
  split <;> rfl

/-- Bytes that hold the same lines: they are the same, or the one are without carriage returns and
the other have one before every line feed. -/
inductive SameLines : List UInt8 → List UInt8 → Prop
  | same (bytes : List UInt8) : SameLines bytes bytes
  | returns {bytes : List UInt8} : 0x0D ∉ bytes → SameLines bytes (withReturns bytes)

/-- Both readings of the bytes are the same, once their lines end in line feeds. -/
structure ReadsAlike (bytes bytes' : List UInt8) : Prop where
  strict : (strict bytes).map Text.unixNewlines = (strict bytes').map Text.unixNewlines
  lenient : Text.unixNewlines (lenient bytes) = Text.unixNewlines (lenient bytes')

/-- Bytes that hold the same lines read the same. -/
theorem SameLines.readsAlike {bytes bytes' : List UInt8} (h : SameLines bytes bytes') :
    ReadsAlike bytes bytes' := by
  cases h with
  | same => exact ⟨rfl, rfl⟩
  | returns hreturn =>
    have hlenient := return_notMem_lenient hreturn
    constructor
    · rw [strict_withReturns]
      cases hstrict : Utf8.strict bytes with
      | none => rfl
      | some text =>
        rw [lenient_eq_of_strict hstrict] at hlenient
        refine congrArg some ?_
        rw [Text.unixNewlines_withReturns hlenient, Text.unixNewlines_eq_self hlenient]
    · rw [lenient_withReturns, Text.unixNewlines_withReturns hlenient,
        Text.unixNewlines_eq_self hlenient]

end Utf8

end RepoSurvey
