import Mathlib.Tactic.IntervalCases
import RepoSurvey.Proofs.Text.LineEnds

/-!
# Lines of bytes

A line feed ends whatever character was begun before it, so that lines are decoded each by itself.

* `Utf8.readFrom_append_feed`: reading across a line feed, in whatever state it is met;
* `Utf8.splitOn_lenient`: the lines of the text are the readings of the lines of the bytes;
* `Utf8.readFrom_encodeChar`: reading the bytes of one character;
* `Utf8.decode_encode`, `Utf8.lenient_encode`: the bytes of a text are read as the text.
-/

namespace RepoSurvey.Utf8

/-! ## Decoding line by line -/

theorem readFrom_append_feed {s : State} (h : s.Wide) (line rest : List UInt8) :
    readFrom s (line ++ 0x0A :: rest) = readFrom s line ++ some '\n' :: readFrom .start rest := by
  induction line generalizing s with
  | nil =>
    have hfeed : step s (0x0A : UInt8).toNat = (finish s ++ [some '\n'], .start) :=
      step_ascii h (by decide)
    rw [List.nil_append, readFrom, readFrom, hfeed, List.append_assoc]
    rfl
  | cons b line ih =>
    rw [List.cons_append, readFrom, readFrom, ih (wide_step h b.toNat), List.append_assoc]

theorem lenient_append_feed (line rest : List UInt8) :
    lenient (line ++ 0x0A :: rest) = lenient line ++ '\n' :: lenient rest := by
  unfold lenient
  rw [decode_eq_readFrom, readFrom_append_feed wide_start, List.map_append, List.map_cons,
    decode_eq_readFrom, decode_eq_readFrom]
  rfl

/-- The text splits at line feeds into the readings of the lines of the bytes. -/
theorem splitOn_lenient (bytes : List UInt8) :
    (lenient bytes).splitOn '\n' = (bytes.splitOn 0x0A).map lenient := by
  by_cases h : 0x0A ∈ bytes
  · obtain ⟨line, rest, hbytes⟩ := List.append_of_mem h
    have hlength : line.length + (rest.length + 1) = bytes.length := by
      rw [hbytes, List.length_append, List.length_cons]
    have hline := splitOn_lenient line
    have hrest := splitOn_lenient rest
    rw [hbytes, lenient_append_feed, List.splitOn_append_cons_self, List.splitOn_append_cons_self,
      hline, hrest, List.map_append]
  · have htext : '\n' ∉ lenient bytes := feed_notMem_lenient h
    rw [List.splitOn_eq_singleton htext, List.splitOn_eq_singleton h]
    rfl
termination_by bytes.length

/-! ## The bytes of a text -/

theorem firstByte_two {n : Nat} (hlow : 2 ≤ n) (hhigh : n < 32) :
    firstByte (n + 192) = ([], .begun 1 0x80 0xBF n) := by
  interval_cases n <;> rfl

theorem firstByte_three {n : Nat} (h : n < 16) :
    firstByte (n + 224)
      = ([], .begun 2 (if n = 0 then 0xA0 else 0x80) (if n = 0xD then 0x9F else 0xBF) n) := by
  interval_cases n <;> rfl

theorem firstByte_four {n : Nat} (h : n ≤ 4) :
    firstByte (n + 240)
      = ([], .begun 3 (if n = 0 then 0x90 else 0x80) (if n = 4 then 0x8F else 0xBF) n) := by
  interval_cases n <;> rfl

theorem readFrom_start_cons {n : Nat} (hn : n < 256) {s : State} (h : firstByte n = ([], s))
    (rest : List UInt8) : readFrom .start (UInt8.ofNat n :: rest) = readFrom s rest := by
  rw [readFrom, UInt8.toNat_ofNat_of_lt' hn, step, h]
  rfl

section Continuation

variable {low high bits n : Nat} (hn : n < 64) (hlow : low ≤ n + 128) (hhigh : n + 128 ≤ high)

include hn hlow hhigh

/-- A byte that continues the character begun, and is not its last. -/
theorem readFrom_begun_cons (owed : Nat) (rest : List UInt8) :
    readFrom (.begun (owed + 2) low high bits) (UInt8.ofNat (n + 128) :: rest)
      = readFrom (.begun (owed + 1) 0x80 0xBF (bits * 64 + n)) rest := by
  have hlast : ¬ owed + 2 ≤ 1 := by omega
  rw [readFrom, UInt8.toNat_ofNat_of_lt' (show n + 128 < 256 by omega), step,
    if_pos ⟨hlow, hhigh⟩]
  dsimp only
  rw [if_neg hlast, Nat.add_sub_cancel]
  rfl

/-- The last byte of the character begun. -/
theorem readFrom_last_cons (rest : List UInt8) :
    readFrom (.begun 1 low high bits) (UInt8.ofNat (n + 128) :: rest)
      = some (Char.ofNat (bits * 64 + n)) :: readFrom .start rest := by
  rw [readFrom, UInt8.toNat_ofNat_of_lt' (show n + 128 < 256 by omega), step,
    if_pos ⟨hlow, hhigh⟩]
  dsimp only
  rw [if_pos le_rfl, Nat.add_sub_cancel]
  rfl

end Continuation

/-- The bytes of a character are read as the character. -/
theorem readFrom_encodeChar (c : Char) (rest : List UInt8) :
    readFrom .start (String.utf8EncodeChar c ++ rest) = some c :: readFrom .start rest := by
  have hc : Char.ofNat c.val.toNat = c := Char.ofNat_toNat c
  have hvalid : c.val.toNat < 0xD800 ∨ 0xDFFF < c.val.toNat ∧ c.val.toNat < 0x110000 := c.valid
  unfold String.utf8EncodeChar
  generalize c.val.toNat = n at hc hvalid
  dsimp only
  split_ifs with hone htwo hthree
  · have hfirst : firstByte n = ([some c], .start) := by
      rw [firstByte, if_pos (by omega), hc]
    rw [List.singleton_append, readFrom, UInt8.toNat_ofNat_of_lt' (show n < 256 by omega), step,
      hfirst]
    rfl
  · have hbits : n / 64 % 32 * 64 + n % 64 = n := by omega
    rw [List.cons_append, readFrom_start_cons (by omega) (firstByte_two (by omega) (by omega)),
      List.singleton_append, readFrom_last_cons (by omega) (by omega) (by omega), hbits, hc]
  · have hbits : (n / 4096 % 16 * 64 + n / 64 % 64) * 64 + n % 64 = n := by omega
    rw [List.cons_append, readFrom_start_cons (by omega) (firstByte_three (by omega)),
      List.cons_append, readFrom_begun_cons (by omega) (by split <;> omega) (by split <;> omega),
      List.singleton_append, readFrom_last_cons (by omega) (by omega) (by omega), hbits, hc]
  · have hbits : ((n / 262144 % 8 * 64 + n / 4096 % 64) * 64 + n / 64 % 64) * 64 + n % 64 = n := by
      omega
    rw [List.cons_append, readFrom_start_cons (by omega) (firstByte_four (by omega)),
      List.cons_append, readFrom_begun_cons (by omega) (by split <;> omega) (by split <;> omega),
      List.cons_append, readFrom_begun_cons (by omega) (by omega) (by omega),
      List.singleton_append, readFrom_last_cons (by omega) (by omega) (by omega), hbits, hc]

theorem toList_loop (bytes : ByteArray) (i : Nat) (front : List UInt8) :
    ByteArray.toList.loop bytes i front = front.reverse ++ bytes.data.toList.drop i := by
  fun_induction ByteArray.toList.loop bytes i front with
  | case1 i front h ih =>
    have hi : i < bytes.data.toList.length := h
    rw [ih, List.drop_eq_getElem_cons hi, List.reverse_cons, List.append_assoc]
    simp [ByteArray.get!, h]
  | case2 i front h =>
    have hi : bytes.data.toList.length ≤ i := Nat.le_of_not_lt h
    rw [List.drop_eq_nil_of_le hi, List.append_nil]

theorem encode_eq_flatMap (text : List Char) :
    encode text = text.flatMap String.utf8EncodeChar := by
  rw [encode, String.toUTF8_eq_toByteArray, String.toByteArray_ofList, List.utf8Encode,
    ByteArray.toList, toList_loop, List.toList_data_toByteArray]
  rfl

theorem decode_encode (text : List Char) : decode (encode text) = text.map some := by
  rw [encode_eq_flatMap, decode_eq_readFrom]
  induction text with
  | nil => rfl
  | cons c text ih => rw [List.flatMap_cons, readFrom_encodeChar, ih, List.map_cons]

/-- The bytes of a text are read as the text. -/
theorem lenient_encode (text : List Char) : lenient (encode text) = text := by
  rw [lenient, decode_encode, List.map_map]
  exact List.map_id text

end RepoSurvey.Utf8
