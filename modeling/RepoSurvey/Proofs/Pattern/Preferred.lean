import RepoSurvey.Proofs.Pattern.Lines

/-!
# The preferred end of a match

Where nothing comes behind a pattern that could fail, only the preferred way to match it counts.

* `Pattern.Prefers`: the preferred end of a match at a cursor;
* `Pattern.Prefers.seqs_cons`, `Pattern.prefers_star`, `Pattern.prefers_literal` and so on: the
  preferred end, shape by shape;
* `Pattern.Prefers.matchStart?`: the match at the start of a text.
-/

namespace RepoSurvey.Pattern

variable {p q : Pattern} {ps : List Pattern} {cur mid e : Cursor}

/-- Of the ways to match the pattern at a cursor, the preferred one ends at `e`. -/
def Prefers (p : Pattern) (cur e : Cursor) : Prop := (p.ends cur).head? = some e

theorem prefers_empty (cur : Cursor) : Prefers .empty cur cur := rfl

theorem prefers_anchor {a : Anchor} (h : holds a cur = true) : Prefers (anchor a) cur cur := by
  rw [Prefers, ends, if_pos h, List.head?_cons]

theorem prefers_one {set : CharSet} {c : Char} {rest : List Char} (hrest : cur.rest = c :: rest)
    (hc : set.contains c = true) : Prefers (.one set) cur (cur.after [c] rest) := by
  rw [Prefers, ends, hrest]
  dsimp only
  rw [if_pos hc, List.head?_cons]

theorem Prefers.capture (h : Prefers p cur e) :
    Prefers (.capture p) cur (e.capture cur.rest (e.offset - cur.offset)) := by
  rw [Prefers] at h ⊢
  rw [ends, List.head?_map, h, Option.map_some]

/-- A longest repetition takes all that it can. -/
theorem prefers_star {set : CharSet} (passed : List Char) {rest : List Char}
    (hrest : cur.rest = passed ++ rest) (hall : ∀ c ∈ passed, set.contains c = true)
    (hstop : ∀ c, rest.head? = some c → set.contains c = false) :
    Prefers (star set) cur (cur.after passed rest) := by
  obtain ⟨shorter, hshorter⟩ := exists_stretches hall hstop
  rw [Prefers, star, ends]
  dsimp only
  rw [hrest, hshorter, List.filter_append, List.map_append, List.reverse_append]
  rfl

/-- The preferred ends of patterns in turn. -/
theorem Prefers.seqs_cons (h : Prefers p cur mid) (hps : Prefers (seqs ps) mid e) :
    Prefers (seqs (p :: ps)) cur e := by
  rw [Prefers] at h hps ⊢
  obtain ⟨others, hends⟩ := List.head?_eq_some_iff.mp h
  rw [ends_seqs_cons, hends, List.flatMap_cons, List.head?_append, hps, Option.some_or]

theorem prefers_literal (word : String) {rest : List Char}
    (hrest : cur.rest = word.toList ++ rest) :
    Prefers (literal word) cur (cur.after word.toList rest) := by
  rw [literal]
  generalize word.toList = chars at hrest ⊢
  induction chars generalizing cur with
  | nil =>
    rw [List.nil_append] at hrest
    rw [← hrest, Cursor.after_nil]
    exact prefers_empty cur
  | cons c chars ih =>
    have hfirst : Prefers (.one (.single c)) cur (cur.after [c] (chars ++ rest)) :=
      prefers_one hrest (beq_self_eq_true c)
    have hrest := hfirst.seqs_cons (@ih (cur.after [c] (chars ++ rest)) rfl)
    rwa [Cursor.after_after] at hrest

theorem Prefers.optional (h : Prefers p cur e) : Prefers (Pattern.optional p) cur e := by
  rw [Prefers] at h ⊢
  rw [Pattern.optional, ends, List.head?_append, h, Option.some_or]

/-- What cannot be matched is left out. -/
theorem prefers_optional (h : p.ends cur = []) : Prefers (Pattern.optional p) cur cur := by
  rw [Prefers, Pattern.optional, ends, h, List.nil_append]
  exact prefers_empty cur

/-- The match at the start of a text ends at the preferred end. -/
theorem Prefers.matchStart? {text : List Char} (h : Prefers p (Cursor.start text) e) :
    p.matchStart? text = some ⟨0, e.offset, e.captured.reverse.map Capture.chars⟩ := by
  obtain ⟨others, hends⟩ := List.head?_eq_some_iff.mp h
  rw [Pattern.matchStart?, matchAt?_eq_run, run_eq_findSome?]
  show (p.ends (Cursor.start text)).findSome? _ = _
  rw [hends, List.findSome?_cons]

end RepoSurvey.Pattern
