import RepoSurvey.Pattern.Basic

/-!
# The first character of a match

What the shape of a pattern tells about the text it matches, before any matching.

* `Pattern.canBeEmpty`: may the match be empty?
* `Pattern.canStart`: may a match that is not empty start with this character?
* `Pattern.run_eq_none_of_not_admits`: there is no match where the next character rules it out.
-/

namespace RepoSurvey.Pattern

def canBeEmpty : Pattern → Bool
  | .empty => true
  | .one _ => false
  | .seq p q => p.canBeEmpty && q.canBeEmpty
  | .alt p q => p.canBeEmpty || q.canBeEmpty
  | .repeated _ least _ _ => least == 0
  | .capture p => p.canBeEmpty
  | .anchor _ => true

def canStart : Pattern → Char → Bool
  | .empty, _ => false
  | .one set, c => set.contains c
  | .seq p q, c => p.canStart c || p.canBeEmpty && q.canStart c
  | .alt p q, c => p.canStart c || q.canStart c
  | .repeated set _ _ _, c => set.contains c
  | .capture p, c => p.canStart c
  | .anchor _, _ => false

/-- May a match stand at the start of a text? -/
def admits (p : Pattern) : List Char → Bool
  | [] => true
  | c :: _ => p.canStart c || p.canBeEmpty

/-- A pattern that cannot start with the next character matches nothing but the empty text, so
that all depends on what follows it. -/
theorem run_eq_none_of_not_canStart {α : Type} {p : Pattern} {cur : Cursor} {c : Char}
    {rest : List Char} {k : Cursor → Option α} (hrest : cur.rest = c :: rest)
    (hstart : p.canStart c = false)
    (hk : p.canBeEmpty = true → ∀ next, next.rest = cur.rest → k next = none) :
    p.run cur k = none := by
  induction p generalizing cur k with
  | empty => exact hk rfl cur rfl
  | one set =>
    have : set.contains c = false := hstart
    simp [run, hrest, this]
  | seq p q ihp ihq =>
    simp only [canStart, Bool.or_eq_false_iff, Bool.and_eq_false_imp] at hstart
    refine ihp hrest hstart.1 fun hp next hnext => ?_
    refine ihq (hnext.trans hrest) (hstart.2 hp) fun hq next' hnext' => ?_
    exact hk (by simp [canBeEmpty, hp, hq]) next' (hnext'.trans hnext)
  | alt p q ihp ihq =>
    simp only [canStart, Bool.or_eq_false_iff] at hstart
    have first : p.run cur k = none :=
      ihp hrest hstart.1 fun hp => hk (by simp [canBeEmpty, hp])
    have second : q.run cur k = none :=
      ihq hrest hstart.2 fun hq => hk (by simp [canBeEmpty, hq])
    simp [run, first, second]
  | repeated set least most preference =>
    have hset : set.contains c = false := hstart
    have here : least = 0 → k ⟨cur.before, c :: rest, cur.offset, cur.captured⟩ = none :=
      fun h => hk (by simp [canBeEmpty, h]) _ hrest.symm
    cases preference with
    | longest =>
      by_cases h : least = 0
      · simp [run, hrest, reachable, hset, h, here h]
      · have : ¬ cur.offset + least ≤ cur.offset := by omega
        simp [run, hrest, reachable, hset, this]
    | shortest =>
      by_cases h : least = 0
      · simp [run, hrest, tryNearest, hset, h, here h]
      · simp [run, hrest, tryNearest, hset, h]
  | capture p ih =>
    exact ih hrest hstart fun hp next hnext => hk hp _ hnext
  | anchor a =>
    simp only [run]
    split
    · exact hk rfl cur rfl
    · rfl

theorem run_eq_none_of_not_admits {α : Type} {p : Pattern} {cur : Cursor}
    {k : Cursor → Option α} (h : p.admits cur.rest = false) : p.run cur k = none := by
  cases hrest : cur.rest with
  | nil => simp [hrest, admits] at h
  | cons c rest =>
    simp only [hrest, admits, Bool.or_eq_false_iff] at h
    exact run_eq_none_of_not_canStart hrest h.1 fun hp => by simp [h.2] at hp

end RepoSurvey.Pattern
