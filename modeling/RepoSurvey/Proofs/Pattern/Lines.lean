import RepoSurvey.Proofs.Pattern.Ends

/-!
# Matching and searching line by line

Where the text is known, a match is followed step by step. A pattern that starts with a word at the
start of a line passes over every line that does not.

* `Pattern.run_seqs_cons`, `Pattern.run_one`, `Pattern.run_literal`, `Pattern.run_anchor`,
  `Pattern.run_capture`: one step of a match;
* `Pattern.run_longest_eq_some`: a longest repetition takes all that it can, if the rest succeeds
  behind it;
* `Pattern.exists_run_eq_some`: what all ends give is given;
* `Pattern.OpensLine`: a pattern that starts with a word at the start of a line;
* `Pattern.OpensLine.findFrom_line`, `Pattern.OpensLine.findFrom_feed`: the search passes over a
  line and its end.
-/

namespace RepoSurvey

theorem forall_head?_cons {P : Char → Prop} {c : Char} (h : P c) (rest : List Char) :
    ∀ d, (c :: rest).head? = some d → P d := by
  intro d hd
  obtain rfl : c = d := Option.some.inj hd
  exact h

/-- The first of some characters, if there is one, ends a line. -/
def LineStops (rest : List Char) : Prop := ∀ c, rest.head? = some c → c = '\n'

/-- The character before a place, if there is one, ends a line. -/
def LineStarts (before : Option Char) : Prop := ∀ c, before = some c → c = '\n'

theorem lineStops_nil : LineStops [] := by
  intro c hc
  cases hc

theorem lineStops_feed (rest : List Char) : LineStops ('\n' :: rest) :=
  forall_head?_cons (P := fun c => c = '\n') rfl rest

theorem lineStarts_none : LineStarts none := by
  intro c hc
  cases hc

theorem lineStarts_feed : LineStarts (some '\n') := by
  intro c hc
  exact (Option.some.inj hc).symm

/-- A word that is read across the end of a line is read before it. -/
theorem prefix_of_prefix_append {word line more : List Char} (h : word <+: line ++ more)
    (hmore : LineStops more) (hword : '\n' ∉ word) : word <+: line := by
  obtain ⟨rest, hrest⟩ := h
  rcases List.append_eq_append_iff.mp hrest with ⟨tail, hline, _⟩ | ⟨tail, rfl, htail⟩
  · exact ⟨tail, hline.symm⟩
  · cases tail with
    | nil => exact ⟨[], by simp⟩
    | cons c tail =>
      have hfeed : c = '\n' := hmore c (by rw [htail]; rfl)
      exact absurd (by simp [hfeed]) hword

namespace Pattern

variable {α : Type} {cur : Cursor} {k : Cursor → Option α}

/-! ## Steps of a match -/

theorem run_seqs_cons (p : Pattern) (ps : List Pattern) (cur : Cursor) (k : Cursor → Option α) :
    (seqs (p :: ps)).run cur k = p.run cur fun next => (seqs ps).run next k :=
  run_seqs_append [p] ps cur k

theorem run_one {set : CharSet} {c : Char} {rest : List Char} (hrest : cur.rest = c :: rest)
    (hc : set.contains c = true) : (Pattern.one set).run cur k = k (cur.after [c] rest) := by
  rw [run, hrest]
  dsimp only
  rw [if_pos hc]
  rfl

theorem run_literal (word : String) {rest : List Char} (hrest : cur.rest = word.toList ++ rest) :
    (literal word).run cur k = k (cur.after word.toList rest) := by
  rw [literal]
  generalize word.toList = chars at hrest ⊢
  induction chars generalizing cur with
  | nil =>
    rw [List.nil_append] at hrest
    rw [← hrest, Cursor.after_nil]
    rfl
  | cons c chars ih =>
    have hc : (CharSet.single c).contains c = true := beq_self_eq_true c
    rw [List.map_cons, run_seqs_cons, run_one hrest hc, ih rfl, Cursor.after_after]
    rfl

theorem run_anchor {a : Anchor} (h : holds a cur = true) : (anchor a).run cur k = k cur :=
  if_pos h

theorem run_capture (p : Pattern) (cur : Cursor) (k : Cursor → Option α) :
    (capture p).run cur k
      = p.run cur fun next => k (next.capture cur.rest (next.offset - cur.offset)) := rfl

theorem mem_ends_anchor {a : Anchor} {e : Cursor} :
    e ∈ ends (anchor a) cur ↔ holds a cur = true ∧ e = cur := by
  rw [ends]
  split
  · rename_i hholds
    rw [List.mem_singleton]
    exact ⟨fun he => ⟨hholds, he⟩, fun he => he.2⟩
  · rename_i hholds
    exact ⟨fun he => absurd he List.not_mem_nil, fun he => absurd he.1 hholds⟩

theorem holds_lineStart_iff : holds .lineStart cur = true ↔ LineStarts cur.before := by
  rw [holds, LineStarts]
  cases cur.before with
  | none => simp
  | some c => simp

theorem holds_lineEnd_iff : holds .lineEnd cur = true ↔ LineStops cur.rest := by
  rw [holds, LineStops]
  cases cur.rest with
  | nil => simp
  | cons c rest => simp

/-- The longest way to take characters of a set is the last one. -/
theorem exists_stretches {set : CharSet} {passed rest : List Char}
    (hall : ∀ c ∈ passed, set.contains c = true)
    (hstop : ∀ c, rest.head? = some c → set.contains c = false) :
    ∃ shorter, stretches set none (passed ++ rest) = shorter ++ [(passed, rest)] := by
  induction passed with
  | nil =>
    cases rest with
    | nil => exact ⟨[], rfl⟩
    | cons c rest =>
      have hc := hstop c rfl
      exact ⟨[], by simp [stretches, hc]⟩
  | cons c passed ih =>
    obtain ⟨hc, hall⟩ := List.forall_mem_cons.mp hall
    obtain ⟨shorter, hshorter⟩ := ih hall
    refine ⟨([], c :: (passed ++ rest)) :: shorter.map fun pair => (c :: pair.1, pair.2), ?_⟩
    rw [List.cons_append, stretches, if_pos (by rw [hc]; rfl), Option.map_none, hshorter,
      List.map_append]
    rfl

/-- A longest repetition takes all the characters of its set, if the rest succeeds behind them. -/
theorem run_longest_eq_some {set : CharSet} {least : Nat} (passed : List Char) {rest : List Char}
    {a : α} (hrest : cur.rest = passed ++ rest) (hall : ∀ c ∈ passed, set.contains c = true)
    (hstop : ∀ c, rest.head? = some c → set.contains c = false) (hleast : least ≤ passed.length)
    (hk : k (cur.after passed rest) = some a) :
    (Pattern.repeated set least none .longest).run cur k = some a := by
  obtain ⟨shorter, hshorter⟩ := exists_stretches hall hstop
  have hkept : [(passed, rest)].filter (fun pair => decide (least ≤ pair.1.length))
      = [(passed, rest)] := List.filter_cons_of_pos (by simpa using hleast)
  rw [run_eq_findSome?, ends]
  dsimp only
  rw [hrest, hshorter, List.filter_append, hkept, List.map_append, List.reverse_append]
  simp [hk]

/-- If the rest succeeds from some end, and gives a value with a property from each end from which
it does, there is a match and its value has the property. -/
theorem exists_run_eq_some {p : Pattern} {P : α → Prop}
    (hsome : ∃ e ∈ p.ends cur, ∃ a, k e = some a)
    (hall : ∀ e ∈ p.ends cur, ∀ a, k e = some a → P a) : ∃ a, p.run cur k = some a ∧ P a := by
  cases hrun : p.run cur k with
  | none =>
    obtain ⟨e, he, a, ha⟩ := hsome
    rw [run_eq_findSome?, List.findSome?_eq_none_iff] at hrun
    rw [hrun e he] at ha
    cases ha
  | some a =>
    obtain ⟨e, he, ha⟩ := exists_of_run_eq_some hrun
    exact ⟨a, rfl, hall e he a ha⟩

/-! ## The search -/

/-- A match of the pattern starts with a word at the start of a line. -/
structure OpensLine (word : String) (p : Pattern) : Prop where
  opens : ∃ ps, p = seqs (anchor .lineStart :: literal word :: ps)
  ne_nil : word.toList ≠ []
  feed_free : '\n' ∉ word.toList

namespace OpensLine

variable {word : String} {p : Pattern} {b : Option Char} {o : Nat} {found : List Match}
  {line more : List Char}

theorem of_matchAt? (h : OpensLine word p) {text : List Char} {m : Match}
    (hm : p.matchAt? b o text = some m) : LineStarts b ∧ word.toList <+: text := by
  obtain ⟨ps, rfl⟩ := h.opens
  obtain ⟨e, he, _⟩ := exists_of_matchAt? hm
  obtain ⟨first, hfirst, he⟩ := mem_ends_seqs_cons.mp he
  obtain ⟨second, hsecond, _⟩ := mem_ends_seqs_cons.mp he
  obtain ⟨hstart, rfl⟩ := mem_ends_anchor.mp hfirst
  obtain ⟨rest, hrest, _⟩ := mem_ends_literal.mp hsecond
  exact ⟨holds_lineStart_iff.mp hstart, rest, hrest.symm⟩

theorem matchAt?_inside (h : OpensLine word p) (hb : ¬ LineStarts b) (o : Nat) (text : List Char) :
    p.matchAt? b o text = none := by
  cases hm : p.matchAt? b o text with
  | none => rfl
  | some m => exact absurd (h.of_matchAt? hm).1 hb

theorem matchAt?_other (h : OpensLine word p) (hline : ¬ word.toList <+: line)
    (hmore : LineStops more) (b : Option Char) (o : Nat) :
    p.matchAt? b o (line ++ more) = none := by
  cases hm : p.matchAt? b o (line ++ more) with
  | none => rfl
  | some m =>
    exact absurd (prefix_of_prefix_append (h.of_matchAt? hm).2 hmore h.feed_free) hline

/-- A line in which nothing is found where it starts is passed over. -/
theorem findFrom_line (h : OpensLine word p) (hline : '\n' ∉ line)
    (hfirst : ∀ o, p.matchAt? b o (line ++ more) = none) :
    p.findFrom b o 0 found (line ++ more)
      = p.findFrom (line.getLast?.or b) (o + line.length) 0 found more := by
  apply findFrom_of_quiet
  intro u v o hsplit hv
  cases hlast : u.getLast? with
  | none =>
    rw [List.getLast?_eq_none_iff] at hlast
    rw [hlast, List.nil_append] at hsplit
    rw [← hsplit]
    exact hfirst o
  | some c =>
    have hmem : c ∈ line := by
      rw [hsplit]
      exact List.mem_append_left v (List.mem_of_getLast? hlast)
    have hinside : ¬ LineStarts (some c) := by
      intro hstart
      rw [hstart c rfl] at hmem
      exact hline hmem
    exact h.matchAt?_inside hinside o (v ++ more)

/-- The end of a line is passed over. -/
theorem findFrom_feed (h : OpensLine word p) (rest : List Char) :
    p.findFrom b o 0 found ('\n' :: rest) = p.findFrom (some '\n') (o + 1) 0 found rest := by
  have hnone : p.matchAt? b o ([] ++ '\n' :: rest) = none :=
    h.matchAt?_other (fun hempty => h.ne_nil (List.prefix_nil.mp hempty)) (lineStops_feed rest) b o
  rw [List.nil_append] at hnone
  rw [findFrom, hnone]

theorem findFrom_nil (h : OpensLine word p) : p.findFrom b o 0 found [] = found.reverse := by
  have hnone : p.matchAt? b o ([] ++ []) = none :=
    h.matchAt?_other (fun hempty => h.ne_nil (List.prefix_nil.mp hempty)) lineStops_nil b o
  rw [List.append_nil] at hnone
  rw [findFrom, if_pos rfl, hnone]

end OpensLine

end Pattern

end RepoSurvey
