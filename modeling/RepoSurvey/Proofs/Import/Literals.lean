import RepoSurvey.Proofs.Import.Words
import RepoSurvey.Proofs.Pattern.Apart

/-!
# The literals of any text

Whatever a text is, code or not, a literal found in it is a relative path between two quotation
marks. Every match of a pattern has two marks of its own.

* `Import.Kind.quotes_of_mem_ends`: what a match passes is a text with a quoted path in it, and the
  path is what it captures;
* `Import.Kind.quotes_stretch`: so it is with the stretch of every match found;
* `Import.Kind.two_mul_length_findAll_le`: there are twice as many quotation marks as matches;
* `Import.literals_quoted`: literals are quoted relative paths, those of one pattern stand in
  stretches of the text that lie apart, and the quotation marks limit their number.
-/

namespace RepoSurvey.Import

open Pattern

variable {text lead path rest : List Char} {mark : Char}

/-- A quoted path stays one where the text goes on. -/
theorem Quotes.append (h : Quotes text lead path rest mark) (back : List Char) :
    Quotes (text ++ back) lead path (rest ++ back) mark := by
  obtain ⟨close, hclose, htext⟩ := h.text_eq
  exact ⟨h.isMark, h.relative, h.quotable, close, hclose, by simp [htext]⟩

/-- A quoted path has a quotation mark on either side. -/
theorem Quotes.two_le_countP (h : Quotes text lead path rest mark) :
    2 ≤ text.countP Import.isMark := by
  obtain ⟨close, hclose, htext⟩ := h.text_eq
  rw [htext, List.countP_append, List.countP_cons_of_pos h.isMark, List.countP_append,
    List.countP_cons_of_pos hclose]
  omega

namespace Kind

variable {k : Kind} {cur e : Cursor} {m : Match}

theorem exists_eq_pattern {p : Pattern} (hp : p ∈ patterns) : ∃ k : Kind, p = k.pattern := by
  rw [patterns_eq] at hp
  obtain ⟨k, _, rfl⟩ := List.mem_map.mp hp
  exact ⟨k, rfl⟩

theorem capturesNothing_closing (k : Kind) : (seqs k.closing).capturesNothing = true := by
  cases k <;> decide

/-- A match passes a text with a quoted path in it, and captures the path. -/
theorem quotes_of_mem_ends {passed : List Char} (he : e ∈ ends k.pattern cur)
    (hpassed : cur.rest = passed ++ e.rest) : ∃ lead path tail mark,
      Quotes passed lead path tail mark
        ∧ e.captured.map Capture.chars = path :: cur.captured.map Capture.chars := by
  obtain ⟨first, hfirst, mid, hmid, he⟩ := mem_ends_pattern.mp he
  obtain ⟨lead, text, htext, rfl⟩ := exists_after_of_mem_ends k.capturesNothing_opening hfirst
  obtain ⟨mark, path, close, rest, hmark, hclose, hrelative, hquotable, hquoted, rfl⟩ :=
    mem_ends_quotedPath.mp hmid
  obtain ⟨tail, last, hlast, rfl⟩ := exists_after_of_mem_ends k.capturesNothing_closing he
  have hlast : rest = tail ++ last := hlast
  have hwhole : passed ++ last = lead ++ mark :: (path ++ close :: tail) ++ last := by
    rw [Cursor.after_rest] at hquoted hpassed
    rw [← hpassed, htext, hquoted, hlast]
    simp
  refine ⟨lead, path, tail, mark, ⟨hmark, hrelative, hquotable, close, hclose, ?_⟩, ?_⟩
  · exact List.append_cancel_right hwhole
  · simp [Cursor.capture, Capture.chars]

/-- The stretch of a match is a text with a quoted path in it, which is what the match gives. -/
theorem quotes_stretch (hm : m ∈ k.pattern.findAll text) :
    ∃ lead tail mark, Quotes (m.stretch text) lead (m.text 0).toList tail mark := by
  obtain ⟨front, before, e, _, he, hmatch⟩ := exists_stretch_of_mem_findAll hm
  obtain ⟨lead, path, tail, mark, hquotes, hcaptured⟩ := quotes_of_mem_ends he rfl
  have hpath : (m.text 0).toList = path := by
    rw [hmatch, Match.text, Match.capture, List.map_reverse, hcaptured]
    simp
  rw [hpath]
  exact ⟨lead, tail, mark, hquotes⟩

/-- The stretch of a match is not empty, and part of the text. -/
theorem start_lt_stop (hm : m ∈ k.pattern.findAll text) :
    m.start < m.stop ∧ m.stop ≤ text.length := by
  obtain ⟨lead, tail, mark, hquotes⟩ := quotes_stretch hm
  obtain ⟨front, before, e, htext, _, hmatch⟩ := exists_stretch_of_mem_findAll hm
  have hlength := congrArg List.length htext
  have hpos := Nat.lt_of_lt_of_le Nat.two_pos
    (Nat.le_trans hquotes.two_le_countP List.countP_le_length)
  have hstart := congrArg Match.start hmatch
  have hstop := congrArg Match.stop hmatch
  simp only [List.length_append] at hlength
  dsimp only at hstart hstop
  omega

/-- Two quotation marks are needed for every match. -/
theorem two_mul_length_findAll_le (k : Kind) (text : List Char) :
    2 * (k.pattern.findAll text).length ≤ text.countP isMark := by
  refine Match.mul_length_le_countP (pairwise_findAll _ text) (fun m hm => ?_) fun m hm => ?_
  · obtain ⟨hstart, hstop⟩ := start_lt_stop hm
    exact ⟨hstart.le, hstop⟩
  · obtain ⟨_, _, _, hquotes⟩ := quotes_stretch hm
    exact hquotes.two_le_countP

end Kind

theorem exists_of_mem_literals {literal : String} (h : literal ∈ literals text) :
    ∃ k : Kind, ∃ m ∈ k.pattern.findAll text, m.text 0 = literal := by
  obtain ⟨p, hp, hliteral⟩ := List.mem_flatMap.mp h
  obtain ⟨k, rfl⟩ := Kind.exists_eq_pattern hp
  exact ⟨k, List.mem_map.mp hliteral⟩

/-- A literal found in a text stands in it between two quotation marks. -/
theorem quotes_of_mem_literals {literal : String} (h : literal ∈ literals text) :
    ∃ lead rest mark, Quotes text lead literal.toList rest mark := by
  obtain ⟨k, m, hm, rfl⟩ := exists_of_mem_literals h
  obtain ⟨lead, tail, mark, hquotes⟩ := Kind.quotes_stretch hm
  obtain ⟨front, before, e, htext, _, _⟩ := exists_stretch_of_mem_findAll hm
  have hwithin := (hquotes.append e.rest).behind front
  rw [← htext] at hwithin
  exact ⟨_, _, mark, hwithin⟩

theorem length_literals (text : List Char) : (literals text).length
    = (fromStatement.findAll text).length + (importCall.findAll text).length
      + (requireCall.findAll text).length + (exportFrom.findAll text).length := by
  simp [literals, patterns, Nat.add_assoc]

/-- Every literal found in a text is a relative path that stands there between two quotation marks,
and has no quotation mark and no line feed in it. The literals that one pattern gives stand in
stretches of the text that do not overlap, from left to right, so that there are two quotation marks
for each of them; and of all literals there are at most four times as many as quotation marks. -/
theorem literals_quoted (text : List Char) :
    (∀ literal ∈ literals text, ∃ lead rest mark, Quotes text lead literal.toList rest mark)
      ∧ (∀ p ∈ patterns, ((p.findAll text).Pairwise fun m n => m.stop ≤ n.start)
        ∧ (∀ m ∈ p.findAll text, m.start < m.stop ∧ m.stop ≤ text.length
          ∧ ∃ lead rest mark, Quotes (m.stretch text) lead (m.text 0).toList rest mark)
        ∧ 2 * (p.findAll text).length ≤ text.countP isMark)
      ∧ (literals text).length ≤ 4 * text.countP isMark := by
  refine ⟨fun literal => quotes_of_mem_literals, fun p hp => ?_, ?_⟩
  · obtain ⟨k, rfl⟩ := Kind.exists_eq_pattern hp
    refine ⟨pairwise_findAll _ text, fun m hm => ?_, k.two_mul_length_findAll_le text⟩
    obtain ⟨hstart, hstop⟩ := Kind.start_lt_stop hm
    exact ⟨hstart, hstop, Kind.quotes_stretch hm⟩
  · have hfrom : 2 * (fromStatement.findAll text).length ≤ text.countP isMark :=
      Kind.two_mul_length_findAll_le .fromStatement text
    have hcall : 2 * (importCall.findAll text).length ≤ text.countP isMark :=
      Kind.two_mul_length_findAll_le .importCall text
    have hrequire : 2 * (requireCall.findAll text).length ≤ text.countP isMark :=
      Kind.two_mul_length_findAll_le .requireCall text
    have hexport : 2 * (exportFrom.findAll text).length ≤ text.countP isMark :=
      Kind.two_mul_length_findAll_le .exportFrom text
    rw [length_literals]
    omega

/-- The marks on either side may differ, and need not belong together in the code. -/
example : literals "import './a\" + require(`../b`) // import('./".toList = ["./a", "../b"] := by
  cbv

end RepoSurvey.Import
