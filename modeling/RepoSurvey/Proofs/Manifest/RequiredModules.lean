import RepoSurvey.Proofs.Manifest.ModuleFile

/-!
# Required modules

All that a module file requires is read from it: first what stands in blocks, then what stands on
lines of its own.

* `ModuleFile.not_closing`, `ModuleFile.exists_run_closing`: a block ends where it is closed,
  wherever the blanks at its start are taken to end;
* `ModuleFile.matchAt?_single`, `ModuleFile.exists_matchAt?_block`: a requirement, and a block of
  them, is matched by the pattern that is meant for it;
* `ModuleFile.requireBlock_single`, `ModuleFile.requireLine_block`: and not by the other one;
* `ModuleFile.Reads`: what is read off the matches of a pattern in each section;
* `ModuleFile.Reads.findAll`: so it is read off those in the whole file;
* `ModuleFile.ofGoMod_fileText`: the required modules of a file.
-/

namespace RepoSurvey.Manifest.ModuleFile

open Pattern

variable {b : Option Char} {o : Nat} {earlier : List Match} {more : List Char}

theorem opensLine_requireBlock : requireBlock.OpensLine "require" :=
  ⟨⟨_, rfl⟩, by decide, by decide⟩

theorem opensLine_requireLine : requireLine.OpensLine "require" :=
  ⟨⟨_, rfl⟩, by decide, by decide⟩

/-! ## A requirement on a line of its own -/

/-- The part of the line before a comment. -/
def Entry.lead (e : Entry) : List Char :=
  keyword ++ ' ' :: (e.module.text ++ ' ' :: e.version.text)

theorem Entry.text_single (e : Entry) : keyword ++ ' ' :: e.text = e.lead ++ e.tail := by
  simp [text, lead]

/-- Behind it no line starts. -/
theorem Entry.not_lineStarts_lead (e : Entry) (b : Option Char) :
    ¬ LineStarts (e.lead.getLast?.or b) := by
  intro hstart
  obtain ⟨c, hc⟩ := Option.ne_none_iff_exists'.mp
    (mt List.getLast?_eq_none_iff.mp e.version.ne_nil)
  have hlast : e.lead.getLast? = some c := by
    simp [lead, List.getLast?_append, List.getLast?_cons, hc]
  rw [hlast] at hstart
  obtain rfl := hstart c rfl
  exact absurd (e.version.solid '\n' (List.mem_of_getLast? hc)) (by decide)

theorem Entry.blank_head_tail (e : Entry) (hmore : LineStops more) :
    ∀ c, (e.tail ++ more).head? = some c → Text.isBlank c = true := by
  rw [tail]
  cases e.comment with
  | none =>
    intro c hc
    rw [hmore c hc]
    decide
  | some comment => exact forall_head?_cons (by decide) ('/' :: '/' :: (comment.text ++ more))

/-- A module that does not start with a parenthesis is captured whole. -/
theorem run_module {α : Type} {cur : Cursor} {k : Cursor → Option α} {a : α} {w : Word}
    {rest : List Char} (hopened : w.text.head? ≠ some '(') (hrest : cur.rest = w.text ++ rest)
    (hstop : ∀ c, rest.head? = some c → Text.isBlank c = true)
    (hk : k ((cur.after w.text rest).capture cur.rest w.text.length) = some a) :
    (capture (seqs [.one ⟨fun c => !Text.isBlank c && c != '('⟩, star .nonBlank])).run cur k
      = some a := by
  obtain ⟨c, text, hcons⟩ := List.exists_cons_of_ne_nil w.ne_nil
  have hsolid : ∀ d ∈ c :: text, Text.isBlank d = false := hcons ▸ w.solid
  have hc : c ≠ '(' := by
    rintro rfl
    exact hopened (by rw [hcons]; rfl)
  have hfirst : (!Text.isBlank c && c != '(') = true := by
    simp [hsolid c List.mem_cons_self, hc]
  rw [hcons] at hrest hk
  rw [run_capture, run_seqs_cons, run_one hrest hfirst]
  refine run_longest_eq_some text rfl ?_ ?_ (Nat.zero_le _) ?_
  · intro d hd
    simp [CharSet.nonBlank, hsolid d (List.mem_cons_of_mem c hd)]
  · intro d hd
    simp [CharSet.nonBlank, hstop d hd]
  · rw [Cursor.after_after, Cursor.after_offset, Nat.add_sub_cancel_left]
    exact hk

theorem matchAt?_single (hb : LineStarts b) (o : Nat) {e : Entry}
    (hopened : e.module.text.head? ≠ some '(') (hmore : LineStops more) :
    requireLine.matchAt? b o (e.lead ++ (e.tail ++ more))
      = some ⟨o, o + e.lead.length, [e.module.text, e.version.text]⟩ := by
  have htext : e.lead ++ (e.tail ++ more) = keyword ++ ([' '] ++ (e.module.text
      ++ ([' '] ++ (e.version.text ++ (e.tail ++ more))))) := by
    simp [Entry.lead]
  have hsolid : ∀ (w : Word) (rest : List Char) (c : Char), (w.text ++ rest).head? = some c →
      (CharSet.oneOf " \t").contains c = false := by
    intro w rest c hc
    have hblank := w.not_blank_head rest c hc
    have hspace : c ≠ ' ' := by
      rintro rfl
      exact absurd hblank (by decide)
    have htab : c ≠ '\t' := by
      rintro rfl
      exact absurd hblank (by decide)
    simp [CharSet.oneOf, hspace, htab]
  have hgap : ∀ (c : Char), ([' '] ++ (e.version.text ++ (e.tail ++ more))).head? = some c →
      Text.isBlank c = true := forall_head?_cons (by decide) _
  rw [htext, matchAt?_eq_run, requireLine, run_seqs_cons,
    run_anchor (holds_lineStart_iff.mpr hb), run_seqs_cons, run_literal "require" rfl,
    run_seqs_cons]
  refine run_longest_eq_some [' '] rfl (List.forall_mem_singleton.mpr (by decide))
    (hsolid e.module _) (Nat.le_refl 1) ?_
  rw [run_seqs_cons]
  refine run_module hopened rfl hgap ?_
  rw [run_seqs_cons]
  refine run_longest_eq_some [' '] rfl (List.forall_mem_singleton.mpr (by decide))
    (hsolid e.version _) (Nat.le_refl 1) ?_
  refine run_word rfl (e.blank_head_tail hmore) ?_
  simp [Cursor.capture, Cursor.after, Capture.chars, Entry.lead]
  omega

/-- A requirement on a line of its own is no block: no parenthesis follows the word. -/
theorem requireBlock_single {e : Entry} (hopened : e.module.text.head? ≠ some '(') :
    requireBlock.matchAt? b o (keyword ++ ' ' :: e.text ++ more) = none := by
  cases hm : requireBlock.matchAt? b o (keyword ++ ' ' :: e.text ++ more) with
  | none => rfl
  | some m =>
    obtain ⟨last, hlast, _⟩ := exists_of_matchAt? hm
    obtain ⟨first, hfirst, hlast⟩ := mem_ends_seqs_cons.mp hlast
    obtain ⟨_, rfl⟩ := mem_ends_anchor.mp hfirst
    obtain ⟨c, text, htext, hc⟩ := e.exists_text
    have hrest : keyword ++ ' ' :: e.text ++ more
        = "require".toList ++ ' ' :: (e.text ++ more) := by
      rw [List.append_assoc]
      rfl
    obtain ⟨gap, behind, hgap, hblank⟩ := parenthesis_of_mem_ends hrest hlast
    rw [htext] at hgap
    cases gap with
    | nil => exact absurd (List.cons.inj hgap).1 (by decide)
    | cons d gap =>
      have hbehind := (List.cons.inj hgap).2
      cases gap with
      | nil =>
        obtain rfl : c = '(' := (List.cons.inj hbehind).1
        obtain ⟨d, module, hcons⟩ := List.exists_cons_of_ne_nil e.module.ne_nil
        rw [Entry.text, hcons] at htext
        obtain rfl : d = '(' := (List.cons.inj htext).1
        exact absurd (by rw [hcons]; rfl) hopened
      | cons d gap =>
        obtain rfl : c = d := (List.cons.inj hbehind).1
        rw [hblank c (by simp)] at hc
        cases hc

/-! ## A block of requirements -/

theorem BlockLine.not_prefix (l : BlockLine) : ¬ keyword <+: l.text := by
  rintro ⟨rest, hrest⟩
  exact absurd (l.blank_head 'r' (by rw [← hrest]; rfl)) (by decide)

theorem BlockLine.head_ne (l : BlockLine) (rest : List Char) :
    (l.text ++ '\n' :: rest).head? ≠ some ')' := by
  intro hhead
  cases htext : l.text with
  | nil => simp [htext] at hhead
  | cons c text =>
    rw [htext] at hhead
    obtain rfl : c = ')' := Option.some.inj hhead
    exact absurd (l.blank_head ')' (by rw [htext]; rfl)) (by decide)

/-- The only line feed in a line and before it is the one before it. -/
theorem BlockLine.eq_of_feed (l : BlockLine) {u v : List Char} (h : '\n' :: l.text = u ++ v)
    (hu : u.getLast? = some '\n') : v = l.text := by
  cases u with
  | nil => cases hu
  | cons c u =>
    obtain ⟨rfl, hline⟩ := List.cons.inj h
    cases u with
    | nil => exact hline.symm
    | cons d u =>
      have hmem : '\n' ∈ l.text := by
        rw [List.getLast?_cons_cons] at hu
        rw [hline]
        exact List.mem_append_left v (List.mem_of_getLast? hu)
      exact absurd hmem l.feed_free

theorem getLast?_inner (lines : List BlockLine) :
    ('\n' :: blockText lines).getLast? = some '\n' := by
  induction lines with
  | nil => rfl
  | cons l lines ih =>
    rw [blockText_cons, ← List.cons_append, List.getLast?_append, ih]
    rfl

/-- Within a block no line starts with a closing parenthesis. -/
theorem not_closing {lines : List BlockLine} {u v : List Char}
    (hsplit : '\n' :: blockText lines = u ++ v) (hu : u.getLast? = some '\n') :
    v.head? ≠ some ')' := by
  induction lines generalizing u with
  | nil =>
    cases u with
    | nil => cases hu
    | cons c u =>
      have hnil : [] = u ++ v := (List.cons.inj hsplit).2
      rw [(List.append_eq_nil_iff.mp hnil.symm).2]
      simp
  | cons l lines ih =>
    rw [blockText_cons, ← List.cons_append] at hsplit
    rcases List.append_eq_append_iff.mp hsplit with ⟨tail, rfl, htail⟩ | ⟨tail, hfront, rfl⟩
    · cases tail with
      | nil =>
        rw [← show '\n' :: blockText lines = v from htail]
        simp
      | cons c tail =>
        refine ih htail ?_
        rw [List.getLast?_append] at hu
        cases hlast : (c :: tail).getLast? with
        | none => simp at hlast
        | some d => rwa [hlast] at hu
    · obtain rfl := l.eq_of_feed hfront hu
      exact l.head_ne (blockText lines)

/-- What the pattern for blocks looks for behind the opening parenthesis and blanks. -/
def closing : List Pattern :=
  [anchor .lineEnd, capture (.repeated .any 0 none .shortest), anchor .lineStart, ")"]

/-- Where a block ends, with its inside captured behind some blanks. -/
def closed (cur : Cursor) (gap inside more : List Char) : Cursor :=
  (((cur.after gap (inside ++ ')' :: more)).after inside (')' :: more)).capture
    (inside ++ ')' :: more) inside.length).after [')'] more

/-- The inside of a block goes up to the first line that starts with a closing parenthesis. -/
theorem run_inside {α : Type} {cur : Cursor} {k : Cursor → Option α} {a : α} {inside : List Char}
    (hrest : cur.rest = inside ++ ')' :: more)
    (hlast : LineStarts (inside.getLast?.or cur.before))
    (hfree : ∀ u v, inside = u ++ v → v ≠ [] → LineStarts (u.getLast?.or cur.before) →
      v.head? ≠ some ')')
    (hk : k (((cur.after inside (')' :: more)).capture cur.rest inside.length).after [')'] more)
      = some a) :
    (seqs [capture (.repeated .any 0 none .shortest), anchor .lineStart, ")"]).run cur k
      = some a := by
  have hclosed : (seqs [anchor .lineStart, ")"]).run
      ((cur.after inside (')' :: more)).capture cur.rest
        ((cur.after inside (')' :: more)).offset - cur.offset)) k = some a := by
    rw [run_seqs_cons, run_anchor (holds_lineStart_iff.mpr hlast), Cursor.after_offset,
      Nat.add_sub_cancel_left]
    exact (run_literal ")" rfl).trans hk
  rw [run_seqs_cons, run_capture]
  refine run_shortest_eq_some hrest (fun c _ => rfl) hclosed ?_
  intro u v a' hsplit ha'
  by_cases hv : v = []
  · rw [hv, List.append_nil] at hsplit
    rw [hv, ← hsplit] at ha'
    exact Option.some.inj (ha'.symm.trans hclosed)
  · obtain ⟨last, hends, _⟩ := exists_of_run_eq_some ha'
    obtain ⟨first, hfirst, hends⟩ := mem_ends_seqs_cons.mp hends
    obtain ⟨hstart, rfl⟩ := mem_ends_anchor.mp hfirst
    obtain ⟨rest, hparenthesis, _⟩ := mem_ends_literal.mp hends
    have hhead : v ++ ')' :: more = ')' :: rest := hparenthesis
    obtain ⟨c, v, rfl⟩ := List.exists_cons_of_ne_nil hv
    obtain rfl : c = ')' := (List.cons.inj hhead).1
    exact absurd rfl (hfree u (')' :: v) hsplit hv (holds_lineStart_iff.mp hstart))

/-- Blanks before the closing parenthesis belong to the inside of the block. -/
theorem exists_inside {inner gap left : List Char} (hblank : ∀ c ∈ gap, Text.isBlank c = true)
    (h : inner ++ ')' :: more = gap ++ left) :
    ∃ inside, inner = gap ++ inside ∧ left = inside ++ ')' :: more := by
  rcases List.append_eq_append_iff.mp h with ⟨tail, rfl, htail⟩ | ⟨tail, hinner, hleft⟩
  · cases tail with
    | nil => exact ⟨[], by simp, htail.symm⟩
    | cons c tail =>
      obtain rfl : ')' = c := (List.cons.inj htail).1
      exact absurd (hblank ')' (by simp)) (by decide)
  · exact ⟨tail, hinner, hleft⟩

section Opened

variable {α : Type} {cur : Cursor} {k : Cursor → Option α} {lines : List BlockLine}
  {gap inside : List Char} (hbefore : cur.before = some '(')

include hbefore

theorem run_closing {a : α} (h : '\n' :: blockText lines = gap ++ '\n' :: inside)
    (hk : k (closed cur gap ('\n' :: inside) more) = some a) :
    (seqs closing).run (cur.after gap ('\n' :: inside ++ ')' :: more)) k = some a := by
  have hlast : ∀ u, u.getLast?.or (cur.after gap ('\n' :: inside ++ ')' :: more)).before
      = (gap ++ u).getLast?.or (some '(') := by
    intro u
    show u.getLast?.or (gap.getLast?.or cur.before) = (gap ++ u).getLast?.or (some '(')
    rw [hbefore, List.getLast?_append, Option.or_assoc]
  rw [closing, run_seqs_cons, run_anchor (holds_lineEnd_iff.mpr (lineStops_feed _))]
  refine run_inside rfl ?_ ?_ hk
  · rw [hlast, ← h, getLast?_inner]
    exact lineStarts_feed
  · intro u v hsplit _ hstart
    have hwhole : '\n' :: blockText lines = gap ++ u ++ v := by
      rw [h, hsplit, List.append_assoc]
    rw [hlast] at hstart
    cases hu : (gap ++ u).getLast? with
    | none =>
      rw [hu] at hstart
      exact absurd (hstart '(' rfl) (by decide)
    | some c =>
      rw [hu] at hstart
      obtain rfl := hstart c rfl
      exact not_closing hwhole hu

/-- The blanks behind the opening parenthesis may go on over lines, but only up to the end of one,
and the inside of the block may start there. -/
theorem exists_run_closing {P : α → Prop}
    (hrest : cur.rest = '\n' :: blockText lines ++ ')' :: more)
    (hk : ∀ gap inside, '\n' :: blockText lines = gap ++ '\n' :: inside →
      (∀ c ∈ gap, Text.isBlank c = true) →
        ∃ a, k (closed cur gap ('\n' :: inside) more) = some a ∧ P a) :
    ∃ a, (blanks.run cur fun next => (seqs closing).run next k) = some a ∧ P a := by
  apply exists_run_eq_some
  · obtain ⟨a, ha, _⟩ := hk [] (blockText lines) rfl (by simp)
    refine ⟨cur.after [] ('\n' :: blockText lines ++ ')' :: more), ?_, a, ?_⟩
    · exact mem_ends_blanks.mpr ⟨[], _, hrest, by simp, rfl⟩
    · exact run_closing hbefore rfl ha
  · intro e he a ha
    obtain ⟨gap, left, hleft, hblank, rfl⟩ := mem_ends_blanks.mp he
    obtain ⟨inside, hinside, rfl⟩ := exists_inside hblank (hrest.symm.trans hleft)
    obtain ⟨last, hlast, _⟩ := exists_of_run_eq_some ha
    obtain ⟨first, hfirst, _⟩ := mem_ends_seqs_cons.mp hlast
    have hend : LineStops (inside ++ ')' :: more) :=
      holds_lineEnd_iff.mp (mem_ends_anchor.mp hfirst).1
    cases inside with
    | nil => exact absurd (hend ')' rfl) (by decide)
    | cons c inside =>
      obtain rfl : c = '\n' := hend c rfl
      obtain ⟨a', ha', hP⟩ := hk gap inside hinside hblank
      obtain rfl := Option.some.inj ((run_closing hbefore hinside ha').symm.trans ha)
      exact hP

end Opened

/-- Without the blanks at its start the inside of a block has the same entries. -/
theorem blockEntries_inside {lines : List BlockLine} {gap inside : List Char}
    (h : '\n' :: blockText lines = gap ++ '\n' :: inside)
    (hgap : ∀ c ∈ gap, Text.isBlank c = true) : blockEntries ('\n' :: inside)
      = (lines.flatMap BlockLine.entries).map Entry.pair := by
  have hempty : ∀ rest, blockEntries ([] ++ '\n' :: rest) = blockEntries rest :=
    blockEntries_blank (by simp)
  calc blockEntries ('\n' :: inside) = blockEntries inside := hempty inside
    _ = blockEntries (gap ++ '\n' :: inside) := (blockEntries_blank hgap inside).symm
    _ = blockEntries ('\n' :: blockText lines) := by rw [h]
    _ = blockEntries (blockText lines) := hempty (blockText lines)
    _ = (lines.flatMap BlockLine.entries).map Entry.pair := blockEntries_blockText lines

/-- Where the match of a block stands behind the opening parenthesis. -/
def opened (b : Option Char) (o : Nat) (lines : List BlockLine) (more : List Char) : Cursor :=
  Cursor.after ⟨b, (Section.block lines).text ++ more, o, []⟩ (keyword ++ [' '] ++ ['('])
    ('\n' :: blockText lines ++ ')' :: more)

theorem before_opened (lines : List BlockLine) : (opened b o lines more).before = some '(' := by
  simp [opened, Cursor.after]

theorem run_opened {α : Type} (hb : LineStarts b) (lines : List BlockLine)
    (k : Cursor → Option α) {a : α}
    (hk : (blanks.run (opened b o lines more) fun next => (seqs closing).run next k) = some a) :
    requireBlock.run ⟨b, (Section.block lines).text ++ more, o, []⟩ k = some a := by
  have htext : (Section.block lines).text ++ more = keyword ++ ([' '] ++ (['(']
      ++ ('\n' :: blockText lines ++ ')' :: more))) := by
    simp [Section.text]
  have hseqs : requireBlock
      = seqs ([anchor .lineStart, "require", blanks, "(", blanks] ++ closing) := rfl
  have hpassed : ∀ c, (['('] ++ ('\n' :: blockText lines ++ ')' :: more)).head? = some c →
      Text.isBlank c = false := forall_head?_cons (by decide) _
  rw [hseqs, List.cons_append, run_seqs_cons, run_anchor (holds_lineStart_iff.mpr hb),
    List.cons_append, run_seqs_cons, run_literal "require" htext, List.cons_append, run_seqs_cons]
  refine run_blanks [' '] rfl (List.forall_mem_singleton.mpr (by decide)) hpassed
    (Nat.zero_le 1) ?_
  rw [List.cons_append, run_seqs_cons, run_literal "(" rfl, Cursor.after_after, Cursor.after_after,
    List.cons_append, run_seqs_cons]
  exact hk

/-- Wherever the blanks at the start of a block are taken to end, the block is closed where its text
ends. -/
theorem offset_closed {lines : List BlockLine} {gap inside : List Char}
    (h : '\n' :: blockText lines = gap ++ '\n' :: inside) :
    (closed (opened b o lines more) gap ('\n' :: inside) more).offset
      = o + (Section.block lines).text.length := by
  have hcount := congrArg List.length h
  have hlength : (Section.block lines).text.length = 9 + ('\n' :: blockText lines).length + 1 := by
    simp [Section.text]
    omega
  simp only [List.length_append, List.length_cons] at hcount
  simp [opened, closed, Cursor.capture, hlength]
  omega

theorem captured_closed (lines : List BlockLine) (gap inside : List Char) :
    (closed (opened b o lines more) gap inside more).captured.reverse.map Capture.chars
      = [inside] := by
  simp [opened, closed, Cursor.capture, Capture.chars]

/-- The pattern for blocks matches a block to its end, and captures all its entries. -/
theorem exists_matchAt?_block (hb : LineStarts b) (o : Nat) (lines : List BlockLine)
    (more : List Char) :
    ∃ m, requireBlock.matchAt? b o ((Section.block lines).text ++ more) = some m
      ∧ m.stop = o + (Section.block lines).text.length
      ∧ blockEntries (m.capture 0) = (lines.flatMap BlockLine.entries).map Entry.pair := by
  have hfinish : ∀ gap inside, '\n' :: blockText lines = gap ++ '\n' :: inside →
      (∀ c ∈ gap, Text.isBlank c = true) → ∃ m : Match,
        some ⟨o, (closed (opened b o lines more) gap ('\n' :: inside) more).offset,
          (closed (opened b o lines more) gap ('\n' :: inside) more).captured.reverse.map
            Capture.chars⟩ = some m
        ∧ m.stop = o + (Section.block lines).text.length
        ∧ blockEntries (m.capture 0) = (lines.flatMap BlockLine.entries).map Entry.pair := by
    intro gap inside hinside hgap
    refine ⟨_, rfl, offset_closed hinside, ?_⟩
    rw [captured_closed]
    exact blockEntries_inside hinside hgap
  obtain ⟨m, hm, hread⟩ := exists_run_closing (before_opened lines) rfl
    (k := fun stop => some (⟨o, stop.offset, stop.captured.reverse.map Capture.chars⟩ : Match))
    hfinish
  refine ⟨m, ?_, hread⟩
  rw [matchAt?_eq_run]
  exact run_opened hb lines _ hm

/-- The first line of a block is no requirement on a line of its own. -/
theorem requireLine_opening {rest : List Char} :
    requireLine.matchAt? b o (keyword ++ [' ', '('] ++ rest) = none := by
  cases hm : requireLine.matchAt? b o (keyword ++ [' ', '('] ++ rest) with
  | none => rfl
  | some m =>
    obtain ⟨last, hlast, _⟩ := exists_of_matchAt? hm
    obtain ⟨first, hfirst, hlast⟩ := mem_ends_seqs_cons.mp hlast
    obtain ⟨second, hsecond, hlast⟩ := mem_ends_seqs_cons.mp hlast
    obtain ⟨third, hthird, hlast⟩ := mem_ends_seqs_cons.mp hlast
    obtain ⟨fourth, hfourth, _⟩ := mem_ends_seqs_cons.mp hlast
    obtain ⟨_, rfl⟩ := mem_ends_anchor.mp hfirst
    obtain ⟨left, hleft, rfl⟩ := mem_ends_literal.mp hsecond
    obtain ⟨gap, behind, hgap, hall, hne, rfl⟩ := mem_ends_plus.mp hthird
    obtain ⟨_, hcaptured, rfl⟩ := mem_ends_capture.mp hfourth
    obtain ⟨_, hone, _⟩ := mem_ends_seqs_cons.mp hcaptured
    obtain ⟨c, text, htext, hc, _⟩ := mem_ends_one.mp hone
    have hopening : ' ' :: '(' :: rest = left := by
      rw [List.append_assoc] at hleft
      exact List.append_cancel_left hleft
    have hbehind : behind = c :: text := htext
    have hcut : ' ' :: '(' :: rest = gap ++ c :: text := by
      rw [hopening, ← hbehind]
      exact hgap
    obtain ⟨d, gap, rfl⟩ := List.exists_cons_of_ne_nil hne
    have hparenthesis := (List.cons.inj hcut).2
    cases gap with
    | nil =>
      obtain rfl : '(' = c := (List.cons.inj hparenthesis).1
      exact absurd hc (by decide)
    | cons d gap =>
      obtain rfl : '(' = d := (List.cons.inj hparenthesis).1
      exact absurd (hall '(' (by simp)) (by decide)

/-! ## The search -/

/-- What is read off the matches of a pattern, section by section. -/
def Reads {β : Type} (p : Pattern) (read : Match → List β) (holds : Section → List β) : Prop :=
  ∀ (s : Section) (b : Option Char) (o : Nat) (earlier : List Match) (more : List Char),
    LineStarts b → LineStops more → ∃ (b' : Option Char) (o' : Nat) (ms : List Match),
      ms.flatMap read = holds s ∧ p.findFrom b o 0 earlier (s.text ++ more)
        = p.findFrom b' o' 0 (ms.reverse ++ earlier) more

theorem fileText_cons (s : Section) (sections : List Section) : ∃ more,
    fileText (s :: sections) = s.text ++ more
      ∧ (sections = [] ∧ more = [] ∨ more = '\n' :: fileText sections) := by
  cases sections with
  | nil => exact ⟨[], by simp [fileText], Or.inl ⟨rfl, rfl⟩⟩
  | cons t sections =>
    refine ⟨'\n' :: fileText (t :: sections), ?_, Or.inr rfl⟩
    simp [fileText, List.intercalate_cons_cons]

theorem Reads.findAll {β : Type} {p : Pattern} {read : Match → List β} {holds : Section → List β}
    (h : Reads p read holds) (hp : p.OpensLine "require") (sections : List Section) :
    (p.findAll (fileText sections)).flatMap read = sections.flatMap holds := by
  have hrun : ∀ b o earlier, LineStarts b →
      (p.findFrom b o 0 earlier (fileText sections)).flatMap read
        = earlier.reverse.flatMap read ++ sections.flatMap holds := by
    induction sections with
    | nil =>
      intro b o earlier _
      rw [fileText, List.map_nil, List.intercalate_nil, hp.findFrom_nil, List.flatMap_nil,
        List.append_nil]
    | cons s sections ih =>
      intro b o earlier hb
      obtain ⟨more, htext, hmore⟩ := fileText_cons s sections
      have hstops : LineStops more := by
        rcases hmore with ⟨_, rfl⟩ | rfl
        · exact lineStops_nil
        · exact lineStops_feed _
      obtain ⟨b', o', ms, hms, hgo⟩ := h s b o earlier more hb hstops
      rw [htext, hgo, List.flatMap_cons, ← hms]
      rcases hmore with ⟨rfl, rfl⟩ | rfl
      · rw [hp.findFrom_nil]
        simp
      · rw [hp.findFrom_feed, ih _ _ _ lineStarts_feed]
        simp
  exact hrun none 0 [] lineStarts_none

theorem findFrom_other {p : Pattern} (hp : p.OpensLine "require") {line : List Char}
    (hfeed : '\n' ∉ line) (hother : ¬ keyword <+: line) (hmore : LineStops more) :
    p.findFrom b o 0 earlier (line ++ more)
      = p.findFrom (line.getLast?.or b) (o + line.length) 0 earlier more :=
  hp.findFrom_line hfeed fun o => hp.matchAt?_other hother hmore b o

/-- Blocks are read with the pattern for blocks. -/
theorem reads_requireBlock : Reads requireBlock (fun m => blockEntries (m.capture 0))
    fun s => if s.isBlock then s.entries.map Entry.pair else [] := by
  intro s b o earlier more hb hmore
  cases s with
  | other line hfeed hother =>
    exact ⟨_, _, [], rfl, findFrom_other opensLine_requireBlock hfeed hother hmore⟩
  | single e hopened =>
    have hfeed : '\n' ∉ keyword ++ ' ' :: e.text := by
      rw [List.mem_append, List.mem_cons]
      exact not_or.mpr ⟨by decide, not_or.mpr ⟨by decide, e.feed_free⟩⟩
    exact ⟨_, _, [], rfl,
      opensLine_requireBlock.findFrom_line hfeed fun o => requireBlock_single hopened⟩
  | block lines =>
    obtain ⟨m, hm, hstop, hread⟩ := exists_matchAt?_block hb o lines more
    refine ⟨_, _, [m], ?_, findFrom_of_match (by simp [Section.text]) hm hstop⟩
    rw [List.flatMap_singleton, hread]
    rfl

/-- Nothing in a block is read as a requirement on a line of its own. -/
theorem requireLine_block (b : Option Char) (o : Nat) (earlier : List Match)
    (lines : List BlockLine) (hmore : LineStops more) :
    ∃ b' o', requireLine.findFrom b o 0 earlier ((Section.block lines).text ++ more)
      = requireLine.findFrom b' o' 0 earlier more := by
  have hinner : ∀ o, ∃ o', requireLine.findFrom (some '\n') o 0 earlier
      (blockText lines ++ ([')'] ++ more))
        = requireLine.findFrom (some '\n') o' 0 earlier ([')'] ++ more) := by
    induction lines with
    | nil => exact fun o => ⟨o, rfl⟩
    | cons l lines ih =>
      intro o
      obtain ⟨o', hrest⟩ := ih (o + l.text.length + 1)
      refine ⟨o', ?_⟩
      rw [blockText_cons, List.append_assoc, List.cons_append,
        findFrom_other opensLine_requireLine l.feed_free l.not_prefix (lineStops_feed _),
        opensLine_requireLine.findFrom_feed, hrest]
  have htext : (Section.block lines).text ++ more
      = keyword ++ [' ', '('] ++ '\n' :: (blockText lines ++ ([')'] ++ more)) := by
    simp [Section.text]
  obtain ⟨o', hrest⟩ := hinner (o + (keyword ++ [' ', '(']).length + 1)
  refine ⟨[')'].getLast?.or (some '\n'), o' + [')'].length, ?_⟩
  rw [htext, opensLine_requireLine.findFrom_line (by decide) fun o => requireLine_opening,
    opensLine_requireLine.findFrom_feed, hrest,
    findFrom_other opensLine_requireLine (by decide) (by decide) hmore]

/-- Requirements on lines of their own are read with the pattern for these. -/
theorem reads_requireLine : Reads requireLine (fun m => [(m.text 0, m.text 1)])
    fun s => if s.isBlock then [] else s.entries.map Entry.pair := by
  intro s b o earlier more hb hmore
  cases s with
  | other line hfeed hother =>
    exact ⟨_, _, [], rfl, findFrom_other opensLine_requireLine hfeed hother hmore⟩
  | single e hopened =>
    have hlead : e.lead ≠ [] := by simp [Entry.lead]
    have hfeed : '\n' ∉ e.tail := notMem_of_inline e.inline_tail (by decide)
    have hmatch := matchAt?_single hb o hopened hmore
    have htext : (Section.single e hopened).text ++ more = e.lead ++ (e.tail ++ more) := by
      rw [Section.text, Entry.text_single, List.append_assoc]
    have hfound : requireLine.findFrom b o 0 earlier (e.lead ++ (e.tail ++ more))
        = requireLine.findFrom (e.lead.getLast?.or b) (o + e.lead.length) 0
          (⟨o, o + e.lead.length, [e.module.text, e.version.text]⟩ :: earlier) (e.tail ++ more) :=
      findFrom_of_match hlead hmatch rfl
    rw [opensLine_requireLine.findFrom_line hfeed fun o =>
      opensLine_requireLine.matchAt?_inside (e.not_lineStarts_lead b) o (e.tail ++ more),
      ← htext] at hfound
    exact ⟨_, _, [_], rfl, hfound⟩
  | block lines =>
    obtain ⟨b', o', hgo⟩ := requireLine_block b o earlier lines hmore
    exact ⟨b', o', [], rfl, hgo⟩

/-! ## The modules of a file -/

/-- The entries of the sections that satisfy `q`. -/
def entriesOf (q : Section → Bool) (sections : List Section) : List Entry :=
  (sections.filter q).flatMap Section.entries

theorem map_entriesOf (q : Section → Bool) (sections : List Section) :
    (entriesOf q sections).map Entry.pair
      = sections.flatMap fun s => if q s then s.entries.map Entry.pair else [] := by
  induction sections with
  | nil => rfl
  | cons s sections ih =>
    rw [List.flatMap_cons, ← ih, entriesOf, entriesOf, List.filter_cons]
    split <;> simp

/-- What is read from a file, where a module may be required more than once. -/
theorem ofGoMod_eq (sections : List Section) : ofGoMod (fileText sections)
    = .ok ((Table.ofEntries ((entriesOf Section.isBlock sections).map Entry.pair)).putAll
      ((entriesOf (fun s => !s.isBlock) sections).map Entry.pair)) := by
  have hblocks := reads_requireBlock.findAll opensLine_requireBlock sections
  have hlines := reads_requireLine.findAll opensLine_requireLine sections
  have hsingle : (fun s : Section => if s.isBlock then [] else s.entries.map Entry.pair)
      = fun s => if !s.isBlock then s.entries.map Entry.pair else [] := by
    funext s
    cases s.isBlock <;> rfl
  rw [← List.map_eq_flatMap, hsingle] at hlines
  rw [ofGoMod, hblocks, hlines, map_entriesOf, map_entriesOf]

/-- If no module is required twice, exactly the required modules and their versions are read from a
file: first those of all blocks, then those on lines of their own, in the order in which they
stand. -/
theorem ofGoMod_fileText {sections : List Section}
    (h : ((sections.flatMap Section.entries).map fun e => e.module.text).Nodup) :
    ofGoMod (fileText sections)
      = .ok ((entriesOf Section.isBlock sections
        ++ entriesOf (fun s => !s.isBlock) sections).map Entry.pair) := by
  have hperm : (entriesOf Section.isBlock sections
      ++ entriesOf (fun s => !s.isBlock) sections).Perm (sections.flatMap Section.entries) := by
    rw [entriesOf, entriesOf, ← List.flatMap_append]
    exact (List.filter_append_perm Section.isBlock sections).flatMap_right Section.entries
  have htexts := (hperm.map fun e => e.module.text).nodup_iff.mpr h
  have hnames : (Table.names ((entriesOf Section.isBlock sections).map Entry.pair
      ++ (entriesOf (fun s => !s.isBlock) sections).map Entry.pair)).Nodup := by
    have hstrings : (((entriesOf Section.isBlock sections
        ++ entriesOf (fun s => !s.isBlock) sections).map fun e => e.module.text).map
          String.ofList).Nodup :=
      List.Pairwise.map String.ofList
        (fun _ _ hne hsame => hne (String.ofList_injective hsame)) htexts
    rw [List.map_map] at hstrings
    rw [Table.names, ← List.map_append, List.map_map]
    exact hstrings
  have hblocks : (Table.names ((entriesOf Section.isBlock sections).map Entry.pair)).Nodup := by
    rw [Table.names, List.map_append] at hnames
    exact (List.nodup_append.mp hnames).1
  rw [ofGoMod_eq, Table.ofEntries_eq_self hblocks, Table.putAll_of_nodup hnames, List.map_append]

/-- A module that is required on a line of its own, and two in a block that starts with a blank
line; the other block is empty. -/
def sample : List Section :=
  let version : Word := .mk "v1.9.1".toList
  let indirect : Comment := .mk " indirect".toList
  [.other "module app".toList (by decide +kernel) (by decide +kernel),
    .single ⟨.mk "pkg/errors".toList, version, some indirect⟩ (by decide +kernel),
    .block [.blank [' '] (by decide) (List.forall_mem_singleton.mpr (by decide)), .comment indirect,
      .entry ⟨.mk "gin".toList, version, none⟩,
      .entry ⟨.mk "x/text/".toList, version, some indirect⟩],
    .block [],
    .other [] (by decide +kernel) (by decide +kernel)]

theorem ofGoMod_fileText_sample :
    ((sample.flatMap Section.entries).map fun e => e.module.text).Nodup
    ∧ String.ofList (fileText sample) = "module app\nrequire pkg/errors v1.9.1 // indirect\n"
        ++ "require (\n \n\t// indirect\n\tgin v1.9.1\n\tx/text/ v1.9.1 // indirect\n)\n"
        ++ "require (\n)\n"
    ∧ ofGoMod (fileText sample)
      = .ok [("gin", "v1.9.1"), ("x/text/", "v1.9.1"), ("pkg/errors", "v1.9.1")] := by
  have hnodup : ((sample.flatMap Section.entries).map fun e => e.module.text).Nodup := by
    decide +kernel
  exact ⟨hnodup, by decide +kernel,
    (ofGoMod_fileText hnodup).trans (congrArg Except.ok (by decide +kernel))⟩

end RepoSurvey.Manifest.ModuleFile
