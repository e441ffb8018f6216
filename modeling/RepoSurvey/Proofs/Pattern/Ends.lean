import RepoSurvey.Pattern.Search

/-!
# Where a match can end

Matching tries the ways to match in the order of preference. All of them are listed by where they
end.

* `Pattern.ends`: the cursors at which a match of a pattern can end, the preferred ones first;
* `Pattern.run_eq_findSome?`: matching takes the first of them from which the rest succeeds;
* `Pattern.mem_ends_one`, `Pattern.mem_ends_repeated`, `Pattern.mem_ends_literal` and so on: the
  text that a match covers, shape by shape;
* `Pattern.run_eq_some_of_unique`: where all ends give the same, preference does not matter;
* `Pattern.run_shortest_eq_some`: a shortest repetition stops where the rest first succeeds;
* `Pattern.exists_after_avoiding`: what a match passes, and the characters that it does not;
* `Pattern.Covers`: what a pattern can take off any text;
* `Pattern.exists_of_mem_findAll`: every match found is a match somewhere in the text;
* `Pattern.findFrom_skip`: searching goes on behind a match.
-/

namespace RepoSurvey

/-- The cursor behind some more characters, with `rest` after them. -/
def Cursor.after (cur : Cursor) (passed rest : List Char) : Cursor :=
  ⟨passed.getLast?.or cur.before, rest, cur.offset + passed.length, cur.captured⟩

@[simp] theorem Cursor.after_rest (cur : Cursor) (passed rest : List Char) :
    (cur.after passed rest).rest = rest := rfl

@[simp] theorem Cursor.after_offset (cur : Cursor) (passed rest : List Char) :
    (cur.after passed rest).offset = cur.offset + passed.length := rfl

@[simp] theorem Cursor.after_captured (cur : Cursor) (passed rest : List Char) :
    (cur.after passed rest).captured = cur.captured := rfl

@[simp] theorem Cursor.after_nil (cur : Cursor) : cur.after [] cur.rest = cur := rfl

theorem Cursor.after_after (cur : Cursor) (passed more rest rest' : List Char) :
    (cur.after passed rest').after more rest = cur.after (passed ++ more) rest := by
  obtain ⟨before, text, offset, captured⟩ := cur
  cases hmore : more.getLast? <;>
    simp [after, List.getLast?_append, hmore, Nat.add_assoc]

theorem getLast?_cons_or {α : Type} (a : α) (as : List α) (b : Option α) :
    (a :: as).getLast?.or b = as.getLast?.or (some a) := by
  cases h : as.getLast? <;> simp [List.getLast?_cons, h]

/-- A capture of some characters. -/
def Cursor.capture (cur : Cursor) (text : List Char) (length : Nat) : Cursor :=
  { cur with captured := ⟨text, length⟩ :: cur.captured }

theorem Cursor.capture_after (cur : Cursor) (text : List Char) (length : Nat)
    (passed rest : List Char) :
    (cur.capture text length).after passed rest = (cur.after passed rest).capture text length :=
  rfl

namespace Pattern

variable {α : Type}

/-! ## Repetitions -/

/-- The ways to take characters of a set off a text, up to `most` of them: what is taken and what is
left, the shortest first. -/
def stretches (set : CharSet) : Option Nat → List Char → List (List Char × List Char)
  | _, [] => [([], [])]
  | most, c :: rest =>
    ([], c :: rest) ::
      if set.contains c && most != some 0 then
        (stretches set (most.map (· - 1)) rest).map fun (passed, left) => (c :: passed, left)
      else []

/-- At most `most` characters, if there is a bound. -/
def Within (most : Option Nat) (count : Nat) : Prop := ∀ m, most = some m → count ≤ m

theorem within_succ_iff {most : Option Nat} {count : Nat} :
    Within most (count + 1) ↔ most ≠ some 0 ∧ Within (most.map (· - 1)) count := by
  cases most with
  | none => simp [Within]
  | some m =>
    simp only [Within, Option.some.injEq, forall_eq', Option.map_some, ne_eq]
    omega

theorem mem_stretches_iff {set : CharSet} {most : Option Nat} {text passed left : List Char} :
    (passed, left) ∈ stretches set most text
      ↔ text = passed ++ left ∧ (∀ c ∈ passed, set.contains c = true)
        ∧ Within most passed.length := by
  induction text generalizing most passed with
  | nil =>
    cases passed with
    | nil =>
      rw [stretches, List.mem_singleton, Prod.mk.injEq]
      exact ⟨fun h => ⟨h.2.symm, by simp [Within]⟩, fun h => ⟨rfl, h.1.symm⟩⟩
    | cons d passed => simp [stretches]
  | cons c rest ih =>
    cases passed with
    | nil =>
      have hempty : ([], left) ∈ stretches set most (c :: rest) ↔ left = c :: rest := by
        rw [stretches]
        split <;> simp
      rw [hempty]
      exact ⟨fun h => ⟨h.symm, by simp [Within]⟩, fun h => h.1.symm⟩
    | cons d passed =>
      have htail : (d :: passed, left) ∈ stretches set most (c :: rest)
          ↔ (set.contains c = true ∧ most ≠ some 0)
            ∧ c = d ∧ (passed, left) ∈ stretches set (most.map (· - 1)) rest := by
        have hguard : (set.contains c && most != some 0) = true
            ↔ set.contains c = true ∧ most ≠ some 0 := by simp
        rw [stretches, List.mem_cons, ← hguard]
        split
        · rename_i htake
          constructor
          · rintro (h | h)
            · cases h
            · obtain ⟨pair, hpair, heq⟩ := List.mem_map.mp h
              cases heq
              exact ⟨htake, rfl, hpair⟩
          · rintro ⟨_, rfl, hpair⟩
            exact Or.inr (List.mem_map.mpr ⟨_, hpair, rfl⟩)
        · rename_i hstop
          simp [hstop]
      rw [htail, ih, List.length_cons, within_succ_iff]
      constructor
      · rintro ⟨⟨hc, hm⟩, rfl, rfl, hall, hwithin⟩
        exact ⟨rfl, List.forall_mem_cons.mpr ⟨hc, hall⟩, hm, hwithin⟩
      · rintro ⟨htext, hall, hm, hwithin⟩
        obtain ⟨rfl, rfl⟩ := List.cons.inj htext
        obtain ⟨hc, hall⟩ := List.forall_mem_cons.mp hall
        exact ⟨⟨hc, hm⟩, rfl, rfl, hall, hwithin⟩

theorem reachable_eq (set : CharSet) (captured : List Capture) (most : Option Nat)
    (before : Option Char) (offset : Nat) (text : List Char) (reached : List Cursor) :
    reachable set captured most before offset text reached
      = ((stretches set most text).map fun (passed, left) =>
          Cursor.after ⟨before, text, offset, captured⟩ passed left).reverse ++ reached := by
  induction text generalizing most before offset reached with
  | nil => simp [reachable, stretches, Cursor.after]
  | cons c rest ih =>
    rw [reachable, stretches]
    split
    · rw [ih]
      have hshift : ∀ pair : List Char × List Char,
          Cursor.after ⟨some c, rest, offset + 1, captured⟩ pair.1 pair.2
            = Cursor.after ⟨before, c :: rest, offset, captured⟩ (c :: pair.1) pair.2 := by
        rintro ⟨passed, left⟩
        exact Cursor.after_after ⟨before, c :: rest, offset, captured⟩ [c] passed left rest
      simp only [List.map_cons, List.map_map, Function.comp_def, List.reverse_cons, hshift,
        List.append_assoc, List.singleton_append]
      rfl
    · rfl

theorem tryNearest_eq (set : CharSet) (captured : List Capture) (k : Cursor → Option α)
    (least : Nat) (most : Option Nat) (before : Option Char) (offset : Nat) (text : List Char) :
    tryNearest set captured k least most before offset text
      = (((stretches set most text).filter fun (passed, _) => least ≤ passed.length).map
          fun (passed, left) =>
            Cursor.after ⟨before, text, offset, captured⟩ passed left).findSome? k := by
  induction text generalizing least most before offset with
  | nil => cases least <;> simp [tryNearest, stretches, Cursor.after]
  | cons c rest ih =>
    have hshift : ∀ pair : List Char × List Char,
        Cursor.after ⟨some c, rest, offset + 1, captured⟩ pair.1 pair.2
          = Cursor.after ⟨before, c :: rest, offset, captured⟩ (c :: pair.1) pair.2 := by
      rintro ⟨passed, left⟩
      exact Cursor.after_after ⟨before, c :: rest, offset, captured⟩ [c] passed left rest
    have hlonger : (if (set.contains c && most != some 0) = true then
          tryNearest set captured k (least - 1) (most.map (· - 1)) (some c) (offset + 1) rest
        else none)
          = ((((if (set.contains c && most != some 0) = true then
              (stretches set (most.map (· - 1)) rest).map fun (passed, left) => (c :: passed, left)
            else []).filter fun (passed, _) => least ≤ passed.length)).map fun (passed, left) =>
              Cursor.after ⟨before, c :: rest, offset, captured⟩ passed left).findSome? k := by
      split
      · rw [ih]
        simp only [List.filter_map, List.map_map, Function.comp_def, hshift, List.length_cons,
          Nat.sub_le_iff_le_add]
      · rfl
    rw [tryNearest, stretches, hlonger]
    cases least with
    | zero =>
      rw [List.filter_cons_of_pos (by simp), List.map_cons, List.findSome?_cons]
      rfl
    | succ least => rw [List.filter_cons_of_neg (by simp), if_neg (Nat.succ_ne_zero least)]

/-! ## All ends of a match -/

theorem findSome?_flatMap {β γ : Type} (xs : List γ) (f : γ → List β) (k : β → Option α) :
    (xs.flatMap f).findSome? k = xs.findSome? fun x => (f x).findSome? k := by
  induction xs with
  | nil => rfl
  | cons x xs ih =>
    rw [List.flatMap_cons, List.findSome?_append, List.findSome?_cons, ih]
    cases (f x).findSome? k <;> rfl

/-- Where a match at a cursor can end, the preferred ends first. -/
def ends : Pattern → Cursor → List Cursor
  | .empty, cur => [cur]
  | .one set, cur =>
    match cur.rest with
    | [] => []
    | c :: rest => if set.contains c then [cur.after [c] rest] else []
  | .seq p q, cur => (p.ends cur).flatMap q.ends
  | .alt p q, cur => p.ends cur ++ q.ends cur
  | .repeated set least most preference, cur =>
    let found := ((stretches set most cur.rest).filter fun (passed, _) =>
      least ≤ passed.length).map fun (passed, left) => cur.after passed left
    match preference with
    | .longest => found.reverse
    | .shortest => found
  | .capture p, cur => (p.ends cur).map fun next => next.capture cur.rest (next.offset - cur.offset)
  | .anchor a, cur => if holds a cur then [cur] else []

/-- Matching takes the first end from which the rest succeeds. -/
theorem run_eq_findSome? (p : Pattern) (cur : Cursor) (k : Cursor → Option α) :
    p.run cur k = (p.ends cur).findSome? k := by
  induction p generalizing cur k with
  | empty => simp [run, ends]
  | one set =>
    rw [run, ends]
    cases cur.rest with
    | nil => rfl
    | cons c rest =>
      dsimp only
      split
      · exact List.findSome?_singleton.symm
      · rfl
  | seq p q ihp ihq =>
    rw [run, ends, ihp, findSome?_flatMap]
    exact congrArg (fun f => (p.ends cur).findSome? f) (funext fun next => ihq next k)
  | alt p q ihp ihq =>
    rw [run, ends, ihp, ihq, List.findSome?_append]
    cases (p.ends cur).findSome? k <;> rfl
  | repeated set least most preference =>
    cases preference with
    | longest =>
      rw [run, ends]
      dsimp only
      rw [reachable_eq, List.append_nil, List.filter_reverse, List.filter_map]
      refine congrArg (fun cs => (List.map _ cs).reverse.findSome? k) ?_
      refine List.filter_congr fun pair _ => ?_
      simp [Cursor.after]
    | shortest => exact tryNearest_eq set cur.captured k least most cur.before cur.offset cur.rest
  | capture p ih =>
    rw [run, ends, ih, List.findSome?_map]
    rfl
  | anchor a =>
    rw [run, ends]
    split <;> simp

/-- Where all ends that do give the same, preference does not matter. -/
theorem run_eq_some_of_unique {p : Pattern} {cur : Cursor} {k : Cursor → Option α} {a : α}
    (hsome : ∃ e ∈ p.ends cur, k e = some a) (hall : ∀ e ∈ p.ends cur, ∀ b, k e = some b → b = a) :
    p.run cur k = some a := by
  obtain ⟨e, he, hk⟩ := hsome
  rw [run_eq_findSome?]
  cases hfound : (p.ends cur).findSome? k with
  | none =>
    rw [List.findSome?_eq_none_iff] at hfound
    rw [hfound e he] at hk
    cases hk
  | some b =>
    obtain ⟨_, d, _, hsplit, hd, _⟩ := List.findSome?_eq_some_iff.mp hfound
    rw [hall d (by rw [hsplit]; simp) b hd]

/-- A shortest repetition goes on up to where the rest succeeds, if the rest gives nothing else
before that. -/
theorem run_shortest_eq_some {set : CharSet} {cur : Cursor} {k : Cursor → Option α} {a : α}
    {passed rest : List Char} (hrest : cur.rest = passed ++ rest)
    (hall : ∀ c ∈ passed, set.contains c = true) (hk : k (cur.after passed rest) = some a)
    (hbefore : ∀ u v b, passed = u ++ v → k (cur.after u (v ++ rest)) = some b → b = a) :
    (Pattern.repeated set 0 none .shortest).run cur k = some a := by
  obtain ⟨before, text, offset, captured⟩ := cur
  rw [run]
  dsimp only at hrest ⊢
  induction passed generalizing before offset text with
  | nil =>
    have hhere : k ⟨before, text, offset, captured⟩ = some a := by
      rw [← hk, hrest]
      rfl
    cases text with
    | nil => rw [tryNearest, if_pos rfl, hhere]
    | cons c rest => rw [tryNearest, if_pos rfl, hhere]
  | cons c passed ih =>
    obtain ⟨hc, hall⟩ := List.forall_mem_cons.mp hall
    rw [hrest, List.cons_append, tryNearest, if_pos rfl]
    cases hhere : k ⟨before, c :: (passed ++ rest), offset, captured⟩ with
    | some b => exact congrArg some (hbefore [] (c :: passed) b rfl hhere)
    | none =>
      have hgo : (set.contains c && (none : Option Nat) != some 0) = true := by
        rw [hc]
        rfl
      dsimp only
      rw [if_pos hgo]
      have hshift : ∀ u left, Cursor.after ⟨some c, passed ++ rest, offset + 1, captured⟩ u left
          = Cursor.after ⟨before, text, offset, captured⟩ (c :: u) left := fun u left =>
        Cursor.after_after ⟨before, text, offset, captured⟩ [c] u left (passed ++ rest)
      refine ih hall (some c) _ (offset + 1) rfl ?_ ?_
      · rw [hshift]
        exact hk
      · intro u v b hsplit hb
        rw [hshift] at hb
        exact hbefore (c :: u) v b (by rw [hsplit]; rfl) hb

theorem exists_of_run_eq_some {p : Pattern} {cur : Cursor} {k : Cursor → Option α} {a : α}
    (h : p.run cur k = some a) : ∃ e ∈ p.ends cur, k e = some a := by
  rw [run_eq_findSome?] at h
  exact List.exists_of_findSome?_eq_some h

/-! ## The text that a match covers -/

variable {cur e : Cursor}

theorem mem_ends_one {set : CharSet} : e ∈ ends (.one set) cur
    ↔ ∃ c rest, cur.rest = c :: rest ∧ set.contains c = true ∧ e = cur.after [c] rest := by
  rw [ends]
  cases cur.rest with
  | nil => simp
  | cons c rest =>
    dsimp only
    split
    · rename_i hc
      rw [List.mem_singleton]
      constructor
      · rintro rfl
        exact ⟨c, rest, rfl, hc, rfl⟩
      · rintro ⟨_, _, heq, _, rfl⟩
        cases heq
        rfl
    · rename_i hc
      constructor
      · intro h
        cases h
      · rintro ⟨_, _, heq, hcontains, _⟩
        cases heq
        exact absurd hcontains hc

theorem mem_ends_seq {p q : Pattern} :
    e ∈ ends (.seq p q) cur ↔ ∃ mid ∈ p.ends cur, e ∈ q.ends mid := by
  rw [ends, List.mem_flatMap]

theorem mem_ends_alt {p q : Pattern} :
    e ∈ ends (.alt p q) cur ↔ e ∈ p.ends cur ∨ e ∈ q.ends cur := by
  rw [ends, List.mem_append]

theorem mem_ends_empty : e ∈ ends .empty cur ↔ e = cur := by
  rw [ends, List.mem_singleton]

theorem mem_ends_repeated {set : CharSet} {least : Nat} {most : Option Nat}
    {preference : Preference} : e ∈ ends (.repeated set least most preference) cur
      ↔ ∃ passed rest, cur.rest = passed ++ rest ∧ (∀ c ∈ passed, set.contains c = true)
        ∧ least ≤ passed.length ∧ Within most passed.length ∧ e = cur.after passed rest := by
  have hfound : e ∈ ((stretches set most cur.rest).filter fun (passed, _) =>
        decide (least ≤ passed.length)).map (fun (passed, left) => cur.after passed left)
      ↔ ∃ passed rest, cur.rest = passed ++ rest ∧ (∀ c ∈ passed, set.contains c = true)
        ∧ least ≤ passed.length ∧ Within most passed.length ∧ e = cur.after passed rest := by
    rw [List.mem_map]
    constructor
    · rintro ⟨⟨passed, rest⟩, hpair, rfl⟩
      obtain ⟨hmem, hleast⟩ := List.mem_filter.mp hpair
      obtain ⟨htext, hall, hmost⟩ := mem_stretches_iff.mp hmem
      exact ⟨passed, rest, htext, hall, by simpa using hleast, hmost, rfl⟩
    · rintro ⟨passed, rest, htext, hall, hleast, hmost, rfl⟩
      refine ⟨(passed, rest), List.mem_filter.mpr ⟨?_, by simpa using hleast⟩, rfl⟩
      exact mem_stretches_iff.mpr ⟨htext, hall, hmost⟩
  rw [← hfound]
  cases preference with
  | longest => exact List.mem_reverse
  | shortest => exact Iff.rfl

theorem mem_ends_star {set : CharSet} : e ∈ ends (star set) cur
    ↔ ∃ passed rest, cur.rest = passed ++ rest ∧ (∀ c ∈ passed, set.contains c = true)
      ∧ e = cur.after passed rest := by
  rw [star, mem_ends_repeated]
  simp [Within]

theorem mem_ends_plus {set : CharSet} : e ∈ ends (plus set) cur
    ↔ ∃ passed rest, cur.rest = passed ++ rest ∧ (∀ c ∈ passed, set.contains c = true)
      ∧ passed ≠ [] ∧ e = cur.after passed rest := by
  rw [plus, mem_ends_repeated]
  simp [Within, Nat.one_le_iff_ne_zero]

theorem mem_ends_blanks : e ∈ ends blanks cur ↔ ∃ gap rest, cur.rest = gap ++ rest
    ∧ (∀ c ∈ gap, Text.isBlank c = true) ∧ e = cur.after gap rest :=
  mem_ends_star

theorem mem_ends_blanks1 : e ∈ ends blanks1 cur ↔ ∃ gap rest, cur.rest = gap ++ rest
    ∧ (∀ c ∈ gap, Text.isBlank c = true) ∧ gap ≠ [] ∧ e = cur.after gap rest :=
  mem_ends_plus

theorem mem_ends_capture {p : Pattern} : e ∈ ends (.capture p) cur
    ↔ ∃ next ∈ p.ends cur, e = next.capture cur.rest (next.offset - cur.offset) := by
  rw [ends, List.mem_map]
  exact exists_congr fun next => and_congr_right fun _ => eq_comm

theorem ends_seqs_cons (p : Pattern) (ps : List Pattern) (cur : Cursor) :
    ends (seqs (p :: ps)) cur = (p.ends cur).flatMap (seqs ps).ends := by
  cases ps with
  | nil =>
    have hempty : ends .empty = fun cur => [cur] := by
      funext cur
      rw [ends]
    rw [seqs, seqs, hempty, List.flatMap_singleton']
  | cons q ps =>
    have hseq : seqs (p :: q :: ps) = .seq p (seqs (q :: ps)) := rfl
    rw [hseq, ends]

theorem mem_ends_seqs_cons {p : Pattern} {ps : List Pattern} :
    e ∈ ends (seqs (p :: ps)) cur ↔ ∃ mid ∈ p.ends cur, e ∈ (seqs ps).ends mid := by
  rw [ends_seqs_cons, List.mem_flatMap]

theorem mem_ends_literal {text : String} : e ∈ ends (literal text) cur
    ↔ ∃ rest, cur.rest = text.toList ++ rest ∧ e = cur.after text.toList rest := by
  rw [literal]
  generalize text.toList = chars
  induction chars generalizing cur with
  | nil =>
    rw [List.map_nil, seqs, mem_ends_empty]
    constructor
    · rintro rfl
      exact ⟨e.rest, rfl, rfl⟩
    · rintro ⟨rest, hrest, rfl⟩
      rw [List.nil_append] at hrest
      rw [← hrest, Cursor.after_nil]
  | cons c chars ih =>
    rw [List.map_cons, mem_ends_seqs_cons]
    constructor
    · rintro ⟨mid, hmid, he⟩
      obtain ⟨d, rest, hrest, hd, rfl⟩ := mem_ends_one.mp hmid
      obtain ⟨left, hleft, rfl⟩ := ih.mp he
      have hsame : d = c := by simpa [CharSet.single] using hd
      rw [Cursor.after_rest] at hleft
      exact ⟨left, by rw [hrest, hleft, hsame]; rfl, by rw [Cursor.after_after, hsame]; rfl⟩
    · rintro ⟨left, hleft, rfl⟩
      refine ⟨cur.after [c] (chars ++ left), ?_, ?_⟩
      · exact mem_ends_one.mpr ⟨c, _, hleft, by simp [CharSet.single], rfl⟩
      · exact ih.mpr ⟨left, rfl, by rw [Cursor.after_after]; rfl⟩

/-- Where the first of some patterns can end at one place only, the rest goes on from there. -/
theorem mem_ends_seqs_cons_of_unique {p : Pattern} {ps : List Pattern} {mid : Cursor}
    (h : ∀ m, m ∈ p.ends cur ↔ m = mid) :
    e ∈ ends (seqs (p :: ps)) cur ↔ e ∈ ends (seqs ps) mid := by
  rw [mem_ends_seqs_cons]
  constructor
  · rintro ⟨m, hm, he⟩
    rwa [← (h m).mp hm]
  · exact fun he => ⟨mid, (h mid).mpr rfl, he⟩

theorem mem_ends_one_of_eq {set : CharSet} {c : Char} {rest : List Char}
    (hrest : cur.rest = c :: rest) (hc : set.contains c = true) :
    e ∈ ends (.one set) cur ↔ e = cur.after [c] rest := by
  rw [mem_ends_one]
  constructor
  · rintro ⟨d, left, hleft, _, rfl⟩
    rw [hrest] at hleft
    obtain ⟨rfl, rfl⟩ := List.cons.inj hleft
    rfl
  · exact fun he => ⟨c, rest, hrest, hc, he⟩

theorem mem_ends_literal_of_eq {word : String} {rest : List Char}
    (hrest : cur.rest = word.toList ++ rest) :
    e ∈ ends (literal word) cur ↔ e = cur.after word.toList rest := by
  rw [mem_ends_literal]
  constructor
  · rintro ⟨left, hleft, rfl⟩
    rw [hrest] at hleft
    rw [List.append_cancel_left hleft]
  · rintro rfl
    exact ⟨rest, hrest, rfl⟩

/-- A word and an opening parenthesis, with blanks at most between them. -/
theorem parenthesis_of_mem_ends {word : String} {ps : List Pattern} {rest : List Char}
    (hrest : cur.rest = word.toList ++ rest)
    (he : e ∈ ends (seqs (literal word :: blanks :: literal "(" :: ps)) cur) :
    ∃ gap behind, rest = gap ++ '(' :: behind ∧ ∀ c ∈ gap, Text.isBlank c = true := by
  obtain ⟨first, hfirst, he⟩ := mem_ends_seqs_cons.mp he
  obtain ⟨second, hsecond, he⟩ := mem_ends_seqs_cons.mp he
  obtain ⟨third, hthird, _⟩ := mem_ends_seqs_cons.mp he
  obtain ⟨left, hleft, rfl⟩ := mem_ends_literal.mp hfirst
  obtain ⟨gap, last, hgap, hblank, rfl⟩ := mem_ends_blanks.mp hsecond
  obtain ⟨behind, hbehind, _⟩ := mem_ends_literal.mp hthird
  rw [hrest] at hleft
  rw [Cursor.after_rest, ← List.append_cancel_left hleft] at hgap
  exact ⟨gap, behind, by rw [hgap, ← Cursor.after_rest _ gap last, hbehind]; rfl, hblank⟩

theorem ends_seqs_append (ps qs : List Pattern) (cur : Cursor) :
    ends (seqs (ps ++ qs)) cur = (ends (seqs ps) cur).flatMap (seqs qs).ends := by
  induction ps generalizing cur with
  | nil => rw [List.nil_append, seqs, ends, List.flatMap_singleton]
  | cons p ps ih =>
    have hrest : (seqs (ps ++ qs)).ends = fun cur => (ends (seqs ps) cur).flatMap (seqs qs).ends :=
      funext ih
    rw [List.cons_append, ends_seqs_cons, ends_seqs_cons, hrest, List.flatMap_assoc]

theorem mem_ends_seqs_append (ps qs : List Pattern) :
    e ∈ ends (seqs (ps ++ qs)) cur ↔ ∃ mid ∈ ends (seqs ps) cur, e ∈ ends (seqs qs) mid := by
  rw [ends_seqs_append, List.mem_flatMap]

/-- Matching in turn. -/
theorem run_seqs_append (ps qs : List Pattern) (cur : Cursor) (k : Cursor → Option α) :
    (seqs (ps ++ qs)).run cur k = (seqs ps).run cur fun next => (seqs qs).run next k := by
  have hrest : (fun next => (seqs qs).run next k) = fun next => ((seqs qs).ends next).findSome? k :=
    funext fun next => run_eq_findSome? (seqs qs) next k
  rw [run_eq_findSome?, run_eq_findSome?, ends_seqs_append, findSome?_flatMap, hrest]

def capturesNothing : Pattern → Bool
  | .empty => true
  | .one _ => true
  | .seq p q => p.capturesNothing && q.capturesNothing
  | .alt p q => p.capturesNothing && q.capturesNothing
  | .repeated .. => true
  | .capture _ => false
  | .anchor _ => true

/-- No match passes the character. -/
def avoids (c : Char) : Pattern → Bool
  | .empty => true
  | .one set => !set.contains c
  | .seq p q => p.avoids c && q.avoids c
  | .alt p q => p.avoids c && q.avoids c
  | .repeated set _ _ _ => !set.contains c
  | .capture p => p.avoids c
  | .anchor _ => true

theorem not_mem_of_contains {set : CharSet} {c : Char} {passed : List Char}
    (hc : (!set.contains c) = true) (hall : ∀ d ∈ passed, set.contains d = true) : c ∉ passed := by
  intro hmem
  rw [hall c hmem] at hc
  cases hc

/-- Without captures a match only goes on in the text, and passes no character that is avoided. -/
theorem exists_after_avoiding {p : Pattern} (hp : p.capturesNothing = true)
    (he : e ∈ p.ends cur) : ∃ lead rest, cur.rest = lead ++ rest ∧ e = cur.after lead rest
      ∧ ∀ c, p.avoids c = true → c ∉ lead := by
  induction p generalizing cur e with
  | empty => exact ⟨[], cur.rest, rfl, mem_ends_empty.mp he, fun c _ => List.not_mem_nil⟩
  | one set =>
    obtain ⟨d, rest, hrest, hd, rfl⟩ := mem_ends_one.mp he
    refine ⟨[d], rest, hrest, rfl, fun c hc => not_mem_of_contains hc ?_⟩
    exact List.forall_mem_singleton.mpr hd
  | seq p q ihp ihq =>
    obtain ⟨hp, hq⟩ := (Bool.and_eq_true _ _).mp hp
    obtain ⟨mid, hmid, he⟩ := mem_ends_seq.mp he
    obtain ⟨lead, rest, hrest, rfl, hlead⟩ := ihp hp hmid
    obtain ⟨more, left, hleft, rfl, hmore⟩ := ihq hq he
    rw [Cursor.after_rest] at hleft
    refine ⟨lead ++ more, left, by rw [hrest, hleft, List.append_assoc],
      Cursor.after_after .., fun c hc => ?_⟩
    obtain ⟨hpc, hqc⟩ := (Bool.and_eq_true _ _).mp hc
    rw [List.mem_append]
    exact not_or.mpr ⟨hlead c hpc, hmore c hqc⟩
  | alt p q ihp ihq =>
    obtain ⟨hp, hq⟩ := (Bool.and_eq_true _ _).mp hp
    rcases mem_ends_alt.mp he with he | he
    · obtain ⟨lead, rest, hrest, rfl, hlead⟩ := ihp hp he
      exact ⟨lead, rest, hrest, rfl, fun c hc => hlead c ((Bool.and_eq_true _ _).mp hc).1⟩
    · obtain ⟨lead, rest, hrest, rfl, hlead⟩ := ihq hq he
      exact ⟨lead, rest, hrest, rfl, fun c hc => hlead c ((Bool.and_eq_true _ _).mp hc).2⟩
  | repeated set least most preference =>
    obtain ⟨passed, rest, hrest, hall, _, _, rfl⟩ := mem_ends_repeated.mp he
    exact ⟨passed, rest, hrest, rfl, fun c hc => not_mem_of_contains hc hall⟩
  | capture p => cases hp
  | anchor a =>
    rw [ends] at he
    split at he
    · exact ⟨[], cur.rest, rfl, List.mem_singleton.mp he, fun c _ => List.not_mem_nil⟩
    · cases he

theorem exists_after_of_mem_ends {p : Pattern} (hp : p.capturesNothing = true)
    (he : e ∈ p.ends cur) : ∃ lead rest, cur.rest = lead ++ rest ∧ e = cur.after lead rest := by
  obtain ⟨lead, rest, hrest, hafter, _⟩ := exists_after_avoiding hp he
  exact ⟨lead, rest, hrest, hafter⟩

/-- The pattern can take the characters off every text that starts with them. -/
def Covers (p : Pattern) (lead : List Char) : Prop :=
  ∀ (cur : Cursor) (rest : List Char), cur.rest = lead ++ rest → cur.after lead rest ∈ p.ends cur

theorem covers_empty : Covers .empty [] := by
  intro cur rest hrest
  rw [List.nil_append] at hrest
  rw [← hrest, Cursor.after_nil]
  exact mem_ends_empty.mpr rfl

theorem covers_literal (word : String) : Covers word word.toList :=
  fun _ rest hrest => mem_ends_literal.mpr ⟨rest, hrest, rfl⟩

theorem covers_repeated {set : CharSet} {least : Nat} {preference : Preference}
    {passed : List Char} (hall : ∀ c ∈ passed, set.contains c = true)
    (hleast : least ≤ passed.length) :
    (Pattern.repeated set least none preference).Covers passed := by
  intro cur rest hrest
  refine mem_ends_repeated.mpr ⟨passed, rest, hrest, hall, hleast, ?_, rfl⟩
  intro most hmost
  cases hmost

theorem Covers.alt_left {p q : Pattern} {lead : List Char} (hp : p.Covers lead) :
    (Pattern.alt p q).Covers lead :=
  fun cur rest hrest => mem_ends_alt.mpr (Or.inl (hp cur rest hrest))

theorem Covers.alt_right {p q : Pattern} {lead : List Char} (hq : q.Covers lead) :
    (Pattern.alt p q).Covers lead :=
  fun cur rest hrest => mem_ends_alt.mpr (Or.inr (hq cur rest hrest))

theorem Covers.cons {p : Pattern} {ps : List Pattern} {front back : List Char}
    (hp : p.Covers front) (hps : (seqs ps).Covers back) :
    (seqs (p :: ps)).Covers (front ++ back) := by
  intro cur rest hrest
  rw [List.append_assoc] at hrest
  refine mem_ends_seqs_cons.mpr ⟨_, hp cur (back ++ rest) hrest, ?_⟩
  have hback := hps (cur.after front (back ++ rest)) rest rfl
  rwa [Cursor.after_after] at hback

/-! ## Searching -/

/-- A match at a place ends at one of the ends. -/
theorem exists_of_matchAt? {p : Pattern} {before : Option Char} {offset : Nat} {text : List Char}
    {m : Match} (h : p.matchAt? before offset text = some m) :
    ∃ e ∈ p.ends ⟨before, text, offset, []⟩,
      m = ⟨offset, e.offset, e.captured.reverse.map Capture.chars⟩ := by
  rw [matchAt?_eq_run] at h
  obtain ⟨e, he, hm⟩ := exists_of_run_eq_some h
  exact ⟨e, he, (Option.some.inj hm).symm⟩

/-- A match found in a text is a match at some place of it. -/
theorem exists_of_mem_findFrom {p : Pattern} {before : Option Char} {offset skip : Nat}
    {found : List Match} {text : List Char} {m : Match}
    (h : m ∈ p.findFrom before offset skip found text) :
    m ∈ found ∨ ∃ passed rest before, text = passed ++ rest
      ∧ p.matchAt? before (offset + passed.length) rest = some m := by
  induction text generalizing before offset skip found with
  | nil =>
    rw [findFrom] at h
    split at h
    · split at h
      · rename_i hm
        rcases List.mem_cons.mp (List.mem_reverse.mp h) with rfl | h
        · exact Or.inr ⟨[], [], before, rfl, hm⟩
        · exact Or.inl h
      · exact Or.inl (List.mem_reverse.mp h)
    · exact Or.inl (List.mem_reverse.mp h)
  | cons c rest ih =>
    -- what is found further on is found one place later
    have hlater : ∀ {found' : List Match} {skip : Nat},
        m ∈ p.findFrom (some c) (offset + 1) skip found' rest →
        m ∈ found' ∨ ∃ passed left before, c :: rest = passed ++ left
          ∧ p.matchAt? before (offset + passed.length) left = some m := by
      intro found' skip hm
      rcases ih hm with hm | ⟨passed, left, before, rfl, hm⟩
      · exact Or.inl hm
      · refine Or.inr ⟨c :: passed, left, before, rfl, ?_⟩
        rwa [List.length_cons, Nat.add_comm passed.length 1, ← Nat.add_assoc]
    cases skip with
    | succ skip =>
      rw [findFrom] at h
      exact hlater h
    | zero =>
      rw [findFrom] at h
      split at h
      · rename_i d hd
        rcases hlater h with hm | hm
        · rcases List.mem_cons.mp hm with rfl | hm
          · exact Or.inr ⟨[], c :: rest, before, rfl, hd⟩
          · exact Or.inl hm
        · exact Or.inr hm
      · exact hlater h

theorem exists_of_mem_findAll {p : Pattern} {text : List Char} {m : Match}
    (h : m ∈ p.findAll text) : ∃ passed rest before, text = passed ++ rest
      ∧ p.matchAt? before passed.length rest = some m := by
  rcases exists_of_mem_findFrom h with h | ⟨passed, rest, before, htext, hm⟩
  · cases h
  · rw [Nat.zero_add] at hm
    exact ⟨passed, rest, before, htext, hm⟩

/-- Characters that belong to the match before are passed over. -/
theorem findFrom_skip (p : Pattern) (before : Option Char) (offset : Nat) (found : List Match)
    (passed rest : List Char) : p.findFrom before offset passed.length found (passed ++ rest)
      = p.findFrom (passed.getLast?.or before) (offset + passed.length) 0 found rest := by
  induction passed generalizing before offset with
  | nil => rfl
  | cons c passed ih =>
    rw [List.cons_append, List.length_cons, findFrom, ih, getLast?_cons_or, Nat.add_assoc,
      Nat.add_comm 1]

/-- Places without a match are passed over: `h` tells of each what stands before it. -/
theorem findFrom_of_quiet {p : Pattern} {before : Option Char} {offset : Nat}
    {found : List Match} {passed rest : List Char}
    (h : ∀ u v offset, passed = u ++ v → v ≠ [] →
      p.matchAt? (u.getLast?.or before) offset (v ++ rest) = none) :
    p.findFrom before offset 0 found (passed ++ rest)
      = p.findFrom (passed.getLast?.or before) (offset + passed.length) 0 found rest := by
  induction passed generalizing before offset with
  | nil => rfl
  | cons c passed ih =>
    have hfirst : p.matchAt? before offset (c :: passed ++ rest) = none :=
      h [] (c :: passed) offset rfl (List.cons_ne_nil c passed)
    have hlater : ∀ u v offset, passed = u ++ v → v ≠ [] →
        p.matchAt? (u.getLast?.or (some c)) offset (v ++ rest) = none := by
      intro u v offset hsplit hv
      have hplace := h (c :: u) v offset (by rw [hsplit]; rfl) hv
      rwa [getLast?_cons_or] at hplace
    rw [List.cons_append] at hfirst ⊢
    rw [findFrom, hfirst]
    dsimp only
    rw [ih hlater, getLast?_cons_or, List.length_cons, Nat.add_assoc, Nat.add_comm 1]

theorem findFrom_of_forall_none {p : Pattern} {before : Option Char} {offset : Nat}
    {found : List Match} {passed rest : List Char}
    (h : ∀ u v before offset, passed = u ++ v → v ≠ [] →
      p.matchAt? before offset (v ++ rest) = none) :
    p.findFrom before offset 0 found (passed ++ rest)
      = p.findFrom (passed.getLast?.or before) (offset + passed.length) 0 found rest :=
  findFrom_of_quiet fun u v offset hsplit hv => h u v (u.getLast?.or before) offset hsplit hv

/-- Where there is a match, the search notes it and goes on behind it. -/
theorem findFrom_of_match {p : Pattern} {before : Option Char} {offset : Nat}
    {found : List Match} {passed rest : List Char} (hpassed : passed ≠ []) {m : Match}
    (hm : p.matchAt? before offset (passed ++ rest) = some m)
    (hstop : m.stop = offset + passed.length) :
    p.findFrom before offset 0 found (passed ++ rest)
      = p.findFrom (passed.getLast?.or before) (offset + passed.length) 0 (m :: found) rest := by
  obtain ⟨c, passed, rfl⟩ := List.exists_cons_of_ne_nil hpassed
  have hskip : m.stop - offset - 1 = passed.length := by
    rw [List.length_cons] at hstop
    omega
  rw [List.cons_append] at hm ⊢
  have hnext : p.findFrom before offset 0 found (c :: (passed ++ rest))
      = p.findFrom (some c) (offset + 1) (m.stop - offset - 1) (m :: found) (passed ++ rest) := by
    rw [findFrom, hm]
  rw [hnext, hskip, findFrom_skip, getLast?_cons_or, List.length_cons, Nat.add_assoc,
    Nat.add_comm 1]

end Pattern

end RepoSurvey
