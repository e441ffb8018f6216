import RepoSurvey.Proofs.Path.Segments
import RepoSurvey.Proofs.Text.ByteLines
import RepoSurvey.Proofs.Text.Trim
import RepoSurvey.Skip

/-!
# What the lines of an ignore file give

An empty line gives nothing, so that only the pieces between line ends count, however the lines
end.

* `Text.pieces`: the pieces of a text between line ends, with `Text.pieces_append_boundary`;
* `Text.pieces_unixNewlines`: line ends are not part of them;
* `Utf8.strict_append_feed`: a line behind bytes that are read;
* `Skip.ofIgnoreText_eq`: the entries of an ignore file, piece by piece;
* `Skip.FitsLine`: a text that a line can hold, with `Skip.FitsLine.entry?_eq`;
* `Skip.mem_ofIgnoreText_append_line`: one more line.
-/

namespace RepoSurvey

namespace Text

theorem splitAtEvery_append_cons {p : Char → Bool} {c : Char} (hc : p c = true)
    (front back : List Char) :
    splitAtEvery p (front ++ c :: back) = splitAtEvery p front ++ splitAtEvery p back := by
  rw [splitAtEvery_eq_splitOnP, splitAtEvery_eq_splitOnP, splitAtEvery_eq_splitOnP,
    List.splitOnP_append_cons front back hc]

theorem splitAtEvery_eq_singleton {p : Char → Bool} {text : List Char}
    (h : ∀ c ∈ text, p c = false) : splitAtEvery p text = [text] := by
  rw [splitAtEvery_eq_splitOnP, List.splitOnP_eq_singleton h]

/-- What stands between line ends, where anything does. -/
def pieces (text : List Char) : List (List Char) :=
  (splitAtEvery isLineBoundary text).filter fun piece => !piece.isEmpty

theorem pieces_append_boundary {c : Char} (hc : isLineBoundary c = true) (front back : List Char) :
    pieces (front ++ c :: back) = pieces front ++ pieces back := by
  rw [pieces, splitAtEvery_append_cons hc, List.filter_append]
  rfl

theorem pieces_boundary_cons {c : Char} (hc : isLineBoundary c = true) (text : List Char) :
    pieces (c :: text) = pieces text := pieces_append_boundary hc [] text

theorem pieces_unbroken {line : List Char} (hne : line ≠ [])
    (h : ∀ c ∈ line, isLineBoundary c = false) : pieces line = [line] := by
  rw [pieces, splitAtEvery_eq_singleton h]
  simp [hne]

/-- Line ends behind a line do not matter. -/
theorem pieces_append_ends (line : List Char) {ends : List Char}
    (h : ∀ c ∈ ends, isLineBoundary c = true) : pieces (line ++ ends) = pieces line := by
  cases ends with
  | nil => rw [List.append_nil]
  | cons c ends =>
    obtain ⟨hc, hends⟩ := List.forall_mem_cons.mp h
    have hnothing : pieces ends = [] := by
      induction ends with
      | nil => rfl
      | cons d ends ih =>
        obtain ⟨hd, hends⟩ := List.forall_mem_cons.mp hends
        rw [pieces_boundary_cons hd]
        exact ih (List.forall_mem_cons.mpr ⟨hc, hends⟩) hends
    rw [pieces_append_boundary hc, hnothing, List.append_nil]

/-- Line ends are no part of the pieces. The part of a line that is behind the reader is kept in
front. -/
theorem pieces_append_unixNewlines (front text : List Char) :
    pieces (front ++ unixNewlines text) = pieces (front ++ text) := by
  induction text generalizing front with
  | nil => rfl
  | cons c text ih =>
    have hstart : pieces (unixNewlines text) = pieces text := ih []
    have hfeed : isLineBoundary '\n' = true := by decide
    have hreturn : isLineBoundary '\r' = true := by decide
    rw [unixNewlines_cons]
    split
    · rename_i hc
      rw [hc, pieces_append_boundary hreturn, ← hstart]
      split
      · rename_i hnext
        -- the line feed that stands for both ends the line
        obtain ⟨rest, rfl⟩ := List.head?_eq_some_iff.mp hnext
        rw [unixNewlines_cons, if_neg (by decide), pieces_append_boundary hfeed,
          pieces_boundary_cons hfeed]
      · rw [pieces_append_boundary hfeed]
    · have hback := ih (front ++ [c])
      rwa [List.append_assoc, List.append_assoc] at hback

theorem pieces_unixNewlines (text : List Char) : pieces (unixNewlines text) = pieces text :=
  pieces_append_unixNewlines [] text

/-- A line without anything on it aside, the lines of a text are its pieces. -/
theorem filter_splitLines (text : List Char) :
    (splitLines text).filter (fun line => !line.isEmpty) = pieces text := by
  rw [← pieces_unixNewlines, splitLines, pieces]
  split
  · rename_i hlast
    obtain ⟨front, hfront⟩ := List.getLast?_eq_some_iff.mp hlast
    simp [hfront]
  · rfl

end Text

/-- A line that is written behind bytes that are UTF-8. -/
theorem Utf8.strict_append_feed {bytes : List UInt8} {text : List Char}
    (h : strict bytes = some text) (line : List Char) :
    strict (bytes ++ encode ('\n' :: line)) = some (text ++ '\n' :: line) := by
  have hbytes : encode ('\n' :: line) = 0x0A :: encode line := by
    rw [encode_eq_flatMap, encode_eq_flatMap]
    rfl
  have hdecode : decode (bytes ++ encode ('\n' :: line))
      = decode bytes ++ some '\n' :: line.map some := by
    rw [hbytes, decode_eq_readFrom, readFrom_append_feed wide_start, ← decode_eq_readFrom,
      ← decode_eq_readFrom, decode_encode]
  rw [strict_eq] at h
  obtain ⟨hall, hlenient⟩ := Option.ite_none_right_eq_some.mp h
  cases hlenient
  rw [strict_eq, if_pos (by simpa [hdecode] using hall), lenient, hdecode]
  simp [lenient]

theorem Utf8.strict_encode (text : List Char) : strict (encode text) = some text := by
  rw [strict_eq, if_pos (by simp [decode_encode]), lenient_encode]

namespace Skip

/-- The entries of an ignore file are those of the pieces between its line ends. -/
theorem ofIgnoreText_eq (text : List Char) :
    ofIgnoreText text = NameSet.ofList ((Text.pieces text).filterMap entry?) := by
  rw [ofIgnoreText, ← Text.filter_splitLines, List.filterMap_filter]
  refine congrArg NameSet.ofList (List.filterMap_congr fun line _ => ?_)
  cases line <;> rfl

theorem mem_ofIgnoreText {text : List Char} {name : String} :
    name ∈ ofIgnoreText text ↔ ∃ piece ∈ Text.pieces text, entry? piece = some name := by
  rw [ofIgnoreText_eq, NameSet.mem_ofList, List.mem_filterMap]

/-- A text that a line can hold: it has no blanks at its ends and no line end in it, and is neither
a comment nor an exception. -/
structure FitsLine (text : List Char) : Prop where
  trimmed : Text.trim text = text
  unbroken : ∀ c ∈ text, Text.isLineBoundary c = false
  uncommented : text.head? ≠ some '#'
  unexcepted : text.head? ≠ some '!'

namespace FitsLine

instance (text : List Char) : Decidable (FitsLine text) :=
  decidable_of_iff (Text.trim text = text
      ∧ (text.all fun c => !Text.isLineBoundary c) = true
      ∧ text.head? ≠ some '#' ∧ text.head? ≠ some '!')
    ⟨fun ⟨htrimmed, hunbroken, hcomment, hexception⟩ =>
      ⟨htrimmed, by simpa using hunbroken, hcomment, hexception⟩,
    fun h => ⟨h.trimmed, by simpa using h.unbroken, h.uncommented, h.unexcepted⟩⟩

variable {text : List Char}

/-- The entry of a line that holds a text. -/
theorem entry?_eq (h : FitsLine text) (hne : Text.trimChar '/' text ≠ []) :
    entry? text = some (String.ofList (Text.trimChar '/' text)) := by
  have hcomment := h.uncommented
  have hexception := h.unexcepted
  unfold entry?
  rw [h.trimmed]
  split
  · exact absurd rfl hne
  · exact absurd rfl hcomment
  · exact absurd rfl hexception
  · dsimp only
    rw [if_neg (by simpa using hne)]

/-- Slashes may be put around a text. -/
theorem slashes (h : FitsLine text) (hne : text ≠ []) (front back : Nat) :
    FitsLine (List.replicate front '/' ++ text ++ List.replicate back '/') := by
  have hslash : Text.isBlank '/' = false := by decide
  obtain ⟨hhead, hlast⟩ := Text.trim_eq_self_iff.mp h.trimmed
  have hfirst : ∀ c, (List.replicate front '/' ++ text ++ List.replicate back '/').head? = some c →
      c = '/' ∨ text.head? = some c := by
    intro c hc
    rw [List.append_assoc, List.head?_append, List.head?_append_of_ne_nil text hne] at hc
    cases front with
    | zero => exact Or.inr hc
    | succ n => exact Or.inl (Option.some.inj hc).symm
  refine ⟨Text.trim_eq_self_iff.mpr ⟨fun c hc => ?_, fun c hc => ?_⟩, fun c hc => ?_, fun hc => ?_,
    fun hc => ?_⟩
  · rcases hfirst c hc with rfl | hc
    · exact hslash
    · exact hhead c hc
  · rw [List.getLast?_append, List.getLast?_append_of_ne_nil _ hne] at hc
    cases back with
    | zero => exact hlast c hc
    | succ n =>
      rw [List.getLast?_replicate, if_neg (Nat.succ_ne_zero n), Option.some_or] at hc
      cases hc
      exact hslash
  · rcases List.mem_append.mp hc with hc | hc
    · rcases List.mem_append.mp hc with hc | hc
      · rw [List.eq_of_mem_replicate hc]
        decide
      · exact h.unbroken c hc
    · rw [List.eq_of_mem_replicate hc]
      decide
  · exact (hfirst _ hc).elim (by decide) h.uncommented
  · exact (hfirst _ hc).elim (by decide) h.unexcepted

end FitsLine

/-- One more line gives its own entry, whatever the lines before it end in. -/
theorem mem_ofIgnoreText_append_line {raw line : List Char} (hline : FitsLine line)
    (hne : line ≠ []) {name : String} :
    name ∈ ofIgnoreText (Text.unixNewlines (raw ++ '\n' :: line))
      ↔ name ∈ ofIgnoreText (Text.unixNewlines raw) ∨ entry? line = some name := by
  rw [mem_ofIgnoreText, mem_ofIgnoreText, Text.pieces_unixNewlines, Text.pieces_unixNewlines,
    Text.pieces_append_boundary (by decide), Text.pieces_unbroken hne hline.unbroken]
  simp only [List.mem_append, List.mem_singleton, or_and_right, exists_or, exists_eq_left]

end Skip

end RepoSurvey
