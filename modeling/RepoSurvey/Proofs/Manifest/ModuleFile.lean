import Mathlib.Data.List.Basic
import RepoSurvey.Manifest.Dependencies
import RepoSurvey.Proofs.Path.Segments
import RepoSurvey.Proofs.Pattern.Lines
import RepoSurvey.Proofs.Text.LineEnds

/-!
# Files that list required modules

The lines of a module file, and what is read from the lines of a block.

* `ModuleFile.Entry`: a module, its version, and a comment behind them if there is one;
* `ModuleFile.BlockLine`: a line within a block of requirements;
* `ModuleFile.Section`: a line outside of all blocks, or a whole block;
* `ModuleFile.readLine?_entry`, `ModuleFile.readLine?_blank`: what is read from one line;
* `ModuleFile.blockEntries_line`, `ModuleFile.blockEntries_blank`: a line at the start of a block;
* `ModuleFile.blockEntries_blockText`: the entries of a block.
-/

namespace RepoSurvey.Manifest.ModuleFile

open Pattern

/-! ## The lines -/

theorem forall_eq_false_of_any {p : Char → Bool} {cs : List Char} (h : cs.any p = false) :
    ∀ c ∈ cs, p c = false := fun c hc => eq_false_of_ne_true (List.any_eq_false.mp h c hc)

/-- A module or a version. -/
structure Word where
  text : List Char
  ne_nil : text ≠ [] := by decide +kernel
  solid : ∀ c ∈ text, Text.isBlank c = false := by exact forall_eq_false_of_any (by decide +kernel)
  uncommented : ¬ "//".toList <:+: text := by decide +kernel

/-- The text of a comment, on one line. -/
structure Comment where
  text : List Char
  inline : ∀ c ∈ text, Text.isLineBoundary c = false := by
    exact forall_eq_false_of_any (by decide +kernel)

structure Entry where
  module : Word
  version : Word
  comment : Option Comment

namespace Entry

/-- What stands behind the version. -/
def tail (e : Entry) : List Char :=
  match e.comment with
  | none => []
  | some comment => " //".toList ++ comment.text

def text (e : Entry) : List Char := e.module.text ++ ' ' :: (e.version.text ++ e.tail)

def pair (e : Entry) : String × String :=
  (String.ofList e.module.text, String.ofList e.version.text)

end Entry

/-- A line of a block: entries and comments are behind a tab. -/
inductive BlockLine
  | blank (line : List Char) (feed_free : '\n' ∉ line) (blank : ∀ c ∈ line, Text.isBlank c = true)
  | comment (remark : Comment)
  | entry (e : Entry)

namespace BlockLine

def text : BlockLine → List Char
  | .blank line _ _ => line
  | .comment remark => "\t//".toList ++ remark.text
  | .entry e => '\t' :: e.text

def entries : BlockLine → List Entry
  | .blank .. => []
  | .comment _ => []
  | .entry e => [e]

end BlockLine

/-- The lines of a block, each with its end. -/
def blockText (lines : List BlockLine) : List Char := lines.flatMap fun l => l.text ++ ['\n']

theorem blockText_cons (l : BlockLine) (lines : List BlockLine) :
    blockText (l :: lines) = l.text ++ '\n' :: blockText lines := by
  simp [blockText]

/-- The word that requirements start with. -/
def keyword : List Char := "require".toList

@[simp] theorem length_keyword : keyword.length = 7 := rfl

/-- A line that requires nothing (a blank one, or another directive), a requirement on a line of its
own, or a block of them. -/
inductive Section
  | other (line : List Char) (feed_free : '\n' ∉ line) (other : ¬ keyword <+: line)
  | single (e : Entry) (opened : e.module.text.head? ≠ some '(')
  | block (lines : List BlockLine)

namespace Section

def text : Section → List Char
  | .other line _ _ => line
  | .single e _ => keyword ++ ' ' :: e.text
  | .block lines => keyword ++ ' ' :: '(' :: '\n' :: (blockText lines ++ [')'])

def entries : Section → List Entry
  | .other .. => []
  | .single e _ => [e]
  | .block lines => lines.flatMap BlockLine.entries

def isBlock : Section → Bool
  | .block _ => true
  | _ => false

end Section

/-- The text of a module file: its sections, with a line feed between any two. -/
def fileText (sections : List Section) : List Char := ['\n'].intercalate (sections.map Section.text)

/-! ## The characters of a line -/

theorem isBlank_of_isLineBoundary {c : Char} (h : Text.isLineBoundary c = true) :
    Text.isBlank c = true := by
  simp only [Text.isLineBoundary, Bool.or_eq_true, beq_iff_eq] at h
  rcases h with ((((((((rfl | rfl) | rfl) | rfl) | rfl) | rfl) | rfl) | rfl) | rfl) | rfl <;> decide

theorem Word.inline (w : Word) : ∀ c ∈ w.text, Text.isLineBoundary c = false := by
  intro c hc
  cases hboundary : Text.isLineBoundary c with
  | false => rfl
  | true =>
    have hsolid := w.solid c hc
    rw [isBlank_of_isLineBoundary hboundary] at hsolid
    cases hsolid

theorem Entry.inline_tail (e : Entry) : ∀ c ∈ e.tail, Text.isLineBoundary c = false := by
  intro c hc
  have hmarks : ∀ c ∈ " //".toList, Text.isLineBoundary c = false :=
    forall_eq_false_of_any (by decide)
  rw [Entry.tail] at hc
  cases hcomment : e.comment with
  | none =>
    rw [hcomment] at hc
    cases hc
  | some comment =>
    rw [hcomment] at hc
    rcases List.mem_append.mp hc with hc | hc
    · exact hmarks c hc
    · exact comment.inline c hc

theorem Entry.inline (e : Entry) : ∀ c ∈ e.text, Text.isLineBoundary c = false := by
  intro c hc
  rw [Entry.text, List.mem_append, List.mem_cons, List.mem_append] at hc
  rcases hc with hc | rfl | hc | hc
  · exact e.module.inline c hc
  · decide
  · exact e.version.inline c hc
  · exact e.inline_tail c hc

theorem notMem_of_inline {line : List Char} (h : ∀ c ∈ line, Text.isLineBoundary c = false)
    {c : Char} (hc : Text.isLineBoundary c = true) : c ∉ line := by
  intro hmem
  rw [h c hmem] at hc
  cases hc

theorem Entry.feed_free (e : Entry) : '\n' ∉ e.text := notMem_of_inline e.inline (by decide)

theorem Entry.exists_text (e : Entry) : ∃ c rest, e.text = c :: rest ∧ Text.isBlank c = false := by
  obtain ⟨c, rest, hcons⟩ := List.exists_cons_of_ne_nil e.module.ne_nil
  refine ⟨c, rest ++ ' ' :: (e.version.text ++ e.tail), ?_, ?_⟩
  · rw [Entry.text, hcons, List.cons_append]
  · exact e.module.solid c (by rw [hcons]; exact List.mem_cons_self)

namespace BlockLine

theorem feed_free (l : BlockLine) : '\n' ∉ l.text := by
  cases l with
  | blank line hfeed _ => exact hfeed
  | comment remark =>
    have hmarks : '\n' ∉ "\t//".toList := by decide
    have htext : '\n' ∉ remark.text := notMem_of_inline remark.inline (by decide)
    rw [text, List.mem_append]
    exact not_or.mpr ⟨hmarks, htext⟩
  | entry e =>
    rw [text, List.mem_cons]
    exact not_or.mpr ⟨by decide, e.feed_free⟩

/-- A line of a block is empty or starts with a blank. -/
theorem blank_head (l : BlockLine) : ∀ c, l.text.head? = some c → Text.isBlank c = true := by
  cases l with
  | blank line _ hblank => exact fun c hc => hblank c (List.mem_of_head? hc)
  | comment remark => exact forall_head?_cons (by decide) ('/' :: '/' :: remark.text)
  | entry e => exact forall_head?_cons (by decide) e.text

end BlockLine

/-! ## Comments -/

theorem dropComment_cons (c : Char) (rest : List Char) : dropComment (c :: rest)
    = if c = '/' ∧ rest.head? = some '/' then [] else c :: dropComment rest := by
  cases rest with
  | nil =>
    rw [if_neg (by simp)]
    simp [dropComment]
  | cons d rest =>
    by_cases h : c = '/' ∧ d = '/'
    · obtain ⟨rfl, rfl⟩ := h
      simp [dropComment]
    · rw [if_neg (by simpa using h), dropComment.eq_3 _ _ (by simpa using h)]

/-- A comment is looked for behind a text that has none. -/
theorem dropComment_append {line rest : List Char} (h : ¬ "//".toList <:+: line)
    (hrest : rest.head? ≠ some '/') : dropComment (line ++ rest) = line ++ dropComment rest := by
  induction line with
  | nil => rfl
  | cons c line ih =>
    have hline : ¬ "//".toList <:+: line := by
      intro hinfix
      exact h (List.infix_cons hinfix)
    have hmark : ¬ (c = '/' ∧ (line ++ rest).head? = some '/') := by
      rintro ⟨rfl, hhead⟩
      cases line with
      | nil => exact hrest hhead
      | cons d line =>
        obtain rfl : d = '/' := Option.some.inj hhead
        exact h ⟨[], line, rfl⟩
    rw [List.cons_append, dropComment_cons, if_neg hmark, ih hline]
    rfl

theorem dropComment_blank {line : List Char} (h : ∀ c ∈ line, Text.isBlank c = true) :
    dropComment line = line := by
  induction line with
  | nil => rfl
  | cons c line ih =>
    obtain ⟨hc, hline⟩ := List.forall_mem_cons.mp h
    have hmark : ¬ (c = '/' ∧ line.head? = some '/') := by
      rintro ⟨rfl, _⟩
      exact absurd hc (by decide)
    rw [dropComment_cons, if_neg hmark, ih hline]

/-! ## One line -/

/-- What is read from a line of a block. -/
def readLine? (line : List Char) : Option (String × String) :=
  (blockLine.matchStart? (dropComment line)).map fun m => (m.text 0, m.text 1)

/-- Blanks, if something else comes behind them. -/
theorem run_blanks {α : Type} {cur : Cursor} {k : Cursor → Option α} {a : α} {least : Nat}
    (gap : List Char) {rest : List Char} (hrest : cur.rest = gap ++ rest)
    (hgap : ∀ c ∈ gap, Text.isBlank c = true)
    (hstop : ∀ c, rest.head? = some c → Text.isBlank c = false) (hleast : least ≤ gap.length)
    (hk : k (cur.after gap rest) = some a) :
    (Pattern.repeated .blank least none .longest).run cur k = some a :=
  run_longest_eq_some gap hrest hgap hstop hleast hk

/-- A word is captured whole. -/
theorem run_word {α : Type} {cur : Cursor} {k : Cursor → Option α} {a : α} {w : Word}
    {rest : List Char} (hrest : cur.rest = w.text ++ rest)
    (hstop : ∀ c, rest.head? = some c → Text.isBlank c = true)
    (hk : k ((cur.after w.text rest).capture cur.rest w.text.length) = some a) :
    (capture (plus .nonBlank)).run cur k = some a := by
  rw [run_capture]
  refine run_longest_eq_some w.text hrest ?_ ?_ (List.length_pos_iff.mpr w.ne_nil) ?_
  · intro c hc
    simp [CharSet.nonBlank, w.solid c hc]
  · intro c hc
    simp [CharSet.nonBlank, hstop c hc]
  · rw [Cursor.after_offset, Nat.add_sub_cancel_left]
    exact hk

theorem Word.not_blank_head (w : Word) (rest : List Char) :
    ∀ c, (w.text ++ rest).head? = some c → Text.isBlank c = false := by
  obtain ⟨c, text, hcons⟩ := List.exists_cons_of_ne_nil w.ne_nil
  have hc : Text.isBlank c = false := w.solid c (by rw [hcons]; exact List.mem_cons_self)
  rw [hcons, List.cons_append]
  exact forall_head?_cons hc (text ++ rest)

theorem matchStart?_blockLine (m v : Word) {gap : List Char}
    (hgap : ∀ c ∈ gap, Text.isBlank c = true) :
    (blockLine.matchStart? ('\t' :: (m.text ++ ' ' :: (v.text ++ gap)))).map
      (fun found => (found.text 0, found.text 1))
        = some (String.ofList m.text, String.ofList v.text) := by
  have hblank : ∀ c, gap.head? = some c → Text.isBlank c = true := fun c hc =>
    hgap c (List.mem_of_head? hc)
  have hspace : ∀ c, (' ' :: (v.text ++ gap)).head? = some c → Text.isBlank c = true :=
    forall_head?_cons (by decide) (v.text ++ gap)
  have hmatch : blockLine.matchStart? ('\t' :: (m.text ++ ' ' :: (v.text ++ gap)))
      = some ⟨0, 1 + m.text.length + 1 + v.text.length, [m.text, v.text]⟩ := by
    rw [matchStart?, matchAt?_eq_run, blockLine, run_seqs_cons, run_anchor rfl, run_seqs_cons]
    refine run_blanks ['\t'] rfl (List.forall_mem_singleton.mpr (by decide)) (m.not_blank_head _)
      (Nat.zero_le _) ?_
    rw [run_seqs_cons]
    refine run_word rfl hspace ?_
    rw [run_seqs_cons]
    refine run_blanks [' '] rfl (List.forall_mem_singleton.mpr (by decide)) (v.not_blank_head gap)
      (Nat.le_refl 1) ?_
    refine run_word rfl hblank ?_
    simp [Cursor.capture, Cursor.after, Capture.chars]
  rw [hmatch]
  rfl

theorem readLine?_entry (e : Entry) : readLine? ('\t' :: e.text) = some e.pair := by
  obtain ⟨gap, htail, hgap⟩ : ∃ gap, dropComment e.tail = gap
      ∧ ∀ c ∈ gap, Text.isBlank c = true := by
    rw [Entry.tail]
    cases e.comment with
    | none => exact ⟨[], rfl, by simp⟩
    | some comment => exact ⟨[' '], rfl, List.forall_mem_singleton.mpr (by decide)⟩
  have htailHead : e.tail.head? ≠ some '/' := by
    rw [Entry.tail]
    cases e.comment with
    | none => simp
    | some comment => simp
  have hdrop : dropComment ('\t' :: e.text)
      = '\t' :: (e.module.text ++ ' ' :: (e.version.text ++ gap)) := by
    rw [dropComment_cons, if_neg (by simp), Entry.text,
      dropComment_append e.module.uncommented (by simp), dropComment_cons, if_neg (by simp),
      dropComment_append e.version.uncommented htailHead, htail]
  rw [readLine?, hdrop, matchStart?_blockLine e.module e.version hgap, Entry.pair]

theorem matchStart?_blank {line : List Char} (h : ∀ c ∈ line, Text.isBlank c = true) :
    blockLine.matchStart? line = none := by
  cases hm : blockLine.matchStart? line with
  | none => rfl
  | some m =>
    obtain ⟨e, he, _⟩ := exists_of_matchAt? hm
    obtain ⟨first, hfirst, he⟩ := mem_ends_seqs_cons.mp he
    obtain ⟨second, hsecond, he⟩ := mem_ends_seqs_cons.mp he
    obtain ⟨third, hthird, _⟩ := mem_ends_seqs_cons.mp he
    obtain rfl := List.mem_singleton.mp hfirst
    obtain ⟨gap, rest, hrest, _, rfl⟩ := mem_ends_blanks.mp hsecond
    obtain ⟨_, hcaptured, rfl⟩ := mem_ends_capture.mp hthird
    obtain ⟨word, left, hleft, hsolid, hne, _⟩ := mem_ends_plus.mp hcaptured
    obtain ⟨c, word, rfl⟩ := List.exists_cons_of_ne_nil hne
    have hline : line = gap ++ rest := hrest
    have hword : rest = c :: word ++ left := hleft
    have hmem : c ∈ line := by simp [hline, hword]
    have hc := hsolid c List.mem_cons_self
    simp [CharSet.nonBlank, h c hmem] at hc

theorem readLine?_blank {line : List Char} (h : ∀ c ∈ line, Text.isBlank c = true) :
    readLine? line = none := by
  rw [readLine?, dropComment_blank h, matchStart?_blank h, Option.map_none]

theorem readLine?_comment (comment : Comment) :
    readLine? ("\t//".toList ++ comment.text) = none := by
  have hdrop : dropComment ("\t//".toList ++ comment.text) = ['\t'] := rfl
  rw [readLine?, hdrop, matchStart?_blank (List.forall_mem_singleton.mpr (by decide)),
    Option.map_none]

/-! ## The lines of a block -/

/-- An empty line at the end of a block is left out, but nothing is read from it anyway. -/
theorem blockEntries_eq (block : List Char) : blockEntries block
    = (Text.splitAtEvery Text.isLineBoundary (Text.unixNewlines block)).filterMap readLine? := by
  have hempty : readLine? [] = none := readLine?_blank (by simp)
  have hlines : blockEntries block = (Text.splitLines block).filterMap readLine? := rfl
  rw [hlines, Text.splitLines]
  generalize Text.splitAtEvery Text.isLineBoundary (Text.unixNewlines block) = pieces
  split
  · rename_i hlast
    have hpieces : pieces = pieces.dropLast ++ [[]] :=
      (List.dropLast_append_getLast? [] hlast).symm
    conv => rhs; rw [hpieces]
    rw [List.filterMap_append, List.filterMap_cons_none hempty, List.filterMap_nil, List.append_nil]
  · rfl

/-- The text up to a line feed gives what its own lines do. -/
theorem filterMap_append_feed (line rest : List Char) :
    (Text.splitAtEvery Text.isLineBoundary (line ++ '\n' :: rest)).filterMap readLine?
      = (Text.splitAtEvery Text.isLineBoundary line).filterMap readLine?
        ++ (Text.splitAtEvery Text.isLineBoundary rest).filterMap readLine? := by
  simp only [Text.splitAtEvery_eq_splitOnP]
  rw [List.splitOnP_append_cons _ _ (by decide), List.filterMap_append]

/-- A line without line boundaries gives at most one entry. -/
theorem blockEntries_line {line : List Char} (h : ∀ c ∈ line, Text.isLineBoundary c = false)
    (rest : List Char) :
    blockEntries (line ++ '\n' :: rest) = (readLine? line).toList ++ blockEntries rest := by
  have hreturn : '\r' ∉ line := notMem_of_inline h (by decide)
  have hfeed : Text.unixNewlines ('\n' :: rest) = '\n' :: Text.unixNewlines rest := by
    rw [Text.unixNewlines_cons, if_neg (by decide)]
  have hone : Text.splitAtEvery Text.isLineBoundary line = [line] := by
    rw [Text.splitAtEvery_eq_splitOnP, List.splitOnP_eq_singleton h]
  rw [blockEntries_eq, blockEntries_eq, Text.unixNewlines_append hreturn, hfeed,
    filterMap_append_feed, hone]
  cases hentry : readLine? line <;> simp [hentry]

/-- Line ends within blanks may be read as one, but stay blanks. -/
theorem exists_unixNewlines_blank {gap : List Char} (h : ∀ c ∈ gap, Text.isBlank c = true)
    (rest : List Char) : ∃ gap', (∀ c ∈ gap', Text.isBlank c = true)
      ∧ Text.unixNewlines (gap ++ '\n' :: rest) = gap' ++ '\n' :: Text.unixNewlines rest := by
  induction gap with
  | nil =>
    refine ⟨[], by simp, ?_⟩
    rw [List.nil_append, Text.unixNewlines_cons, if_neg (by decide), List.nil_append]
  | cons c gap ih =>
    obtain ⟨hc, hgap⟩ := List.forall_mem_cons.mp h
    obtain ⟨gap', hgap', heq⟩ := ih hgap
    rw [List.cons_append, Text.unixNewlines_cons, heq]
    split
    · split
      · exact ⟨gap', hgap', rfl⟩
      · exact ⟨'\n' :: gap', List.forall_mem_cons.mpr ⟨by decide, hgap'⟩, rfl⟩
    · exact ⟨c :: gap', List.forall_mem_cons.mpr ⟨hc, hgap'⟩, rfl⟩

/-- Blanks at the start of a block give no entries, whatever lines they are. -/
theorem blockEntries_blank {gap : List Char} (h : ∀ c ∈ gap, Text.isBlank c = true)
    (rest : List Char) : blockEntries (gap ++ '\n' :: rest) = blockEntries rest := by
  obtain ⟨gap', hgap', heq⟩ := exists_unixNewlines_blank h rest
  have hnone : (Text.splitAtEvery Text.isLineBoundary gap').filterMap readLine? = [] := by
    rw [List.filterMap_eq_nil_iff]
    intro piece hpiece
    exact readLine?_blank fun c hc => hgap' c (Text.mem_of_mem_splitAtEvery hpiece c hc)
  rw [blockEntries_eq, blockEntries_eq, heq, filterMap_append_feed, hnone, List.nil_append]

theorem blockEntries_blockText (lines : List BlockLine) :
    blockEntries (blockText lines) = (lines.flatMap BlockLine.entries).map Entry.pair := by
  induction lines with
  | nil => decide
  | cons l lines ih =>
    rw [blockText_cons, List.flatMap_cons, List.map_append, ← ih]
    cases l with
    | blank line _ hblank => exact blockEntries_blank hblank (blockText lines)
    | comment comment =>
      have hmarks : ∀ c ∈ "\t//".toList, Text.isLineBoundary c = false :=
        forall_eq_false_of_any (by decide)
      have hinline : ∀ c ∈ "\t//".toList ++ comment.text, Text.isLineBoundary c = false := by
        intro c hc
        rcases List.mem_append.mp hc with hc | hc
        · exact hmarks c hc
        · exact comment.inline c hc
      rw [BlockLine.text, blockEntries_line hinline, readLine?_comment]
      rfl
    | entry e =>
      have hinline : ∀ c ∈ '\t' :: e.text, Text.isLineBoundary c = false :=
        List.forall_mem_cons.mpr ⟨by decide, e.inline⟩
      rw [BlockLine.text, blockEntries_line hinline, readLine?_entry]
      rfl

end RepoSurvey.Manifest.ModuleFile
