import RepoSurvey.Proofs.Pattern.Lines

/-!
# Matches lie apart

A search goes on behind the match it has found. So the matches found in a text are stretches of it
that do not overlap, from left to right.

* `Match.stretch`: the part of the text that a match passes;
* `Pattern.exists_passed_of_mem_ends`: matching passes characters one after the other;
* `Pattern.pairwise_findAll`: no match starts before the one found before it stops;
* `Pattern.exists_stretch_of_mem_findAll`: a match passes its stretch and stops behind it;
* `Match.mul_length_le_countP`: characters that are needed for every match limit their number.
-/

namespace RepoSurvey

/-- The part of a text that a match passes. -/
def Match.stretch (m : Match) (text : List Char) : List Char := (text.take m.stop).drop m.start

namespace Pattern

/-! ## What is passed -/

/-- Matching passes some characters, whatever it captures. -/
theorem exists_passed_of_mem_ends {p : Pattern} {cur e : Cursor} (he : e ∈ p.ends cur) :
    ∃ passed, cur.rest = passed ++ e.rest ∧ e.offset = cur.offset + passed.length := by
  induction p generalizing cur e with
  | empty =>
    rw [mem_ends_empty.mp he]
    exact ⟨[], rfl, rfl⟩
  | one set =>
    obtain ⟨c, rest, hrest, _, rfl⟩ := mem_ends_one.mp he
    exact ⟨[c], hrest, rfl⟩
  | seq p q ihp ihq =>
    obtain ⟨mid, hmid, he⟩ := mem_ends_seq.mp he
    obtain ⟨first, hfirst, hmidOffset⟩ := ihp hmid
    obtain ⟨second, hsecond, hoffset⟩ := ihq he
    refine ⟨first ++ second, by rw [hfirst, hsecond, List.append_assoc], ?_⟩
    rw [hoffset, hmidOffset, List.length_append, Nat.add_assoc]
  | alt p q ihp ihq =>
    rcases mem_ends_alt.mp he with he | he
    · exact ihp he
    · exact ihq he
  | repeated set least most preference =>
    obtain ⟨passed, rest, hrest, _, _, _, rfl⟩ := mem_ends_repeated.mp he
    exact ⟨passed, hrest, rfl⟩
  | capture p ih =>
    obtain ⟨next, hnext, rfl⟩ := mem_ends_capture.mp he
    exact ih (e := next) hnext
  | anchor a =>
    rw [(mem_ends_anchor.mp he).2]
    exact ⟨[], rfl, rfl⟩

/-! ## One match after the other -/

variable {p : Pattern} {before : Option Char} {offset skip : Nat} {text : List Char} {m : Match}

theorem start_of_matchAt? (h : p.matchAt? before offset text = some m) : m.start = offset := by
  obtain ⟨e, _, rfl⟩ := exists_of_matchAt? h
  rfl

/-- Earlier matches only come before those that are found. -/
theorem findFrom_eq_append (p : Pattern) (before : Option Char) (offset skip : Nat)
    (found : List Match) (text : List Char) :
    p.findFrom before offset skip found text
      = found.reverse ++ p.findFrom before offset skip [] text := by
  induction text generalizing before offset skip found with
  | nil =>
    rw [findFrom, findFrom]
    split
    · cases p.matchAt? before offset [] <;> simp
    · simp
  | cons c rest ih =>
    cases skip with
    | succ skip => exact ih (some c) (offset + 1) skip found
    | zero =>
      rw [findFrom, findFrom]
      cases p.matchAt? before offset (c :: rest) with
      | none => exact ih (some c) (offset + 1) 0 found
      | some m =>
        dsimp only
        rw [ih _ _ _ (m :: found), ih _ _ _ [m]]
        simp

/-- A search finds nothing before the place where it is. -/
theorem le_start_of_mem_findFrom (h : m ∈ p.findFrom before offset skip [] text) :
    offset + skip ≤ m.start := by
  induction text generalizing before offset skip with
  | nil =>
    rw [findFrom] at h
    split at h
    · rename_i hskip
      cases hm : p.matchAt? before offset [] with
      | none => simp [hm] at h
      | some n =>
        simp only [hm, List.reverse_singleton, List.mem_singleton] at h
        rw [h, start_of_matchAt? hm, hskip]
        exact Nat.le_refl offset
    · cases h
  | cons c rest ih =>
    cases skip with
    | succ skip =>
      have hlater := @ih (some c) (offset + 1) skip h
      omega
    | zero =>
      rw [findFrom] at h
      cases hm : p.matchAt? before offset (c :: rest) with
      | none =>
        rw [hm] at h
        have hlater := ih h
        omega
      | some n =>
        rw [hm] at h
        dsimp only at h
        rw [findFrom_eq_append] at h
        rcases List.mem_cons.mp h with rfl | h
        · exact Nat.le_of_eq (start_of_matchAt? hm).symm
        · have hlater := ih h
          omega

theorem pairwise_findFrom (p : Pattern) (before : Option Char) (offset skip : Nat)
    (text : List Char) :
    (p.findFrom before offset skip [] text).Pairwise fun m n => m.stop ≤ n.start := by
  induction text generalizing before offset skip with
  | nil =>
    rw [findFrom]
    split
    · cases p.matchAt? before offset [] <;> simp
    · simp
  | cons c rest ih =>
    cases skip with
    | succ skip => exact ih (some c) (offset + 1) skip
    | zero =>
      rw [findFrom]
      cases hm : p.matchAt? before offset (c :: rest) with
      | none => exact ih (some c) (offset + 1) 0
      | some m =>
        dsimp only
        rw [findFrom_eq_append]
        refine List.pairwise_cons.mpr ⟨fun n hn => ?_, ih _ _ _⟩
        have hlater := le_start_of_mem_findFrom hn
        omega

/-- The matches found in a text do not overlap, and come from left to right. -/
theorem pairwise_findAll (p : Pattern) (text : List Char) :
    (p.findAll text).Pairwise fun m n => m.stop ≤ n.start :=
  pairwise_findFrom p none 0 0 text

/-- A match found in a text passes a stretch of the text, and stops behind it. -/
theorem exists_stretch_of_mem_findAll (h : m ∈ p.findAll text) :
    ∃ front before e, text = front ++ (m.stretch text ++ e.rest)
      ∧ e ∈ p.ends ⟨before, m.stretch text ++ e.rest, front.length, []⟩
      ∧ m = ⟨front.length, front.length + (m.stretch text).length,
        e.captured.reverse.map Capture.chars⟩ := by
  obtain ⟨front, left, before, rfl, hmatch⟩ := exists_of_mem_findAll h
  obtain ⟨e, he, rfl⟩ := exists_of_matchAt? hmatch
  obtain ⟨passed, hpassed, hoffset⟩ := exists_passed_of_mem_ends he
  dsimp only at hpassed hoffset
  subst hpassed
  have hstretch : Match.stretch ⟨front.length, e.offset, e.captured.reverse.map Capture.chars⟩
      (front ++ (passed ++ e.rest)) = passed := by
    rw [Match.stretch, hoffset, ← List.append_assoc, ← List.length_append, List.take_left,
      List.drop_left]
  refine ⟨front, before, e, ?_, ?_, ?_⟩
  · rw [hstretch]
  · rwa [hstretch]
  · rw [hstretch, hoffset]

end Pattern

/-! ## Counting -/

/-- Where each of some matches, one behind the other, passes at least `k` characters of a kind,
there are `k` times as many of these characters in the text. -/
theorem Match.mul_length_le_countP {kind : Char → Bool} {k : Nat} {text : List Char}
    {ms : List Match} (hapart : ms.Pairwise fun m n => m.stop ≤ n.start)
    (hinside : ∀ m ∈ ms, m.start ≤ m.stop ∧ m.stop ≤ text.length)
    (hcount : ∀ m ∈ ms, k ≤ (m.stretch text).countP kind) :
    k * ms.length ≤ text.countP kind := by
  -- counted from any place before the first of them
  have hfrom : ∀ place, (∀ m ∈ ms, place ≤ m.start) →
      k * ms.length ≤ (text.drop place).countP kind := by
    induction ms with
    | nil => simp
    | cons m ms ih =>
      intro place hplace
      obtain ⟨hhead, htail⟩ := List.pairwise_cons.mp hapart
      obtain ⟨hstart, hstop⟩ := hinside m List.mem_cons_self
      have hlater : k * ms.length ≤ (text.drop m.stop).countP kind :=
        ih htail (fun n hn => hinside n (List.mem_cons_of_mem _ hn))
          (fun n hn => hcount n (List.mem_cons_of_mem _ hn)) m.stop hhead
      have hfirst : k ≤ ((text.take m.stop).drop place).countP kind := by
        have hsub : (m.stretch text).Sublist ((text.take m.stop).drop place) :=
          List.drop_sublist_drop_left _ (hplace m List.mem_cons_self)
        exact Nat.le_trans (hcount m List.mem_cons_self) hsub.countP_le
      have hsplit : text.drop place = (text.take m.stop).drop place ++ text.drop m.stop := by
        have hbefore : place ≤ (text.take m.stop).length := by
          have := hplace m List.mem_cons_self
          rw [List.length_take_of_le hstop]
          omega
        rw [← List.drop_append_of_le_length hbefore, List.take_append_drop]
      rw [hsplit, List.countP_append, List.length_cons, Nat.mul_succ]
      omega
  exact hfrom 0 fun m _ => Nat.zero_le _

end RepoSurvey
