import RepoSurvey.Number.Reading

/-!
# Integer literals

The whole numbers that a setting can hold, as a grammar: a sign if there is one, then decimal digits
of any script, with single low lines between two of them.

* `Number.Digits`, `Number.IntegerLiteral`: the grammar, with the number that is spelled;
* `Number.digitGroups?_eq_some_iff`, `Number.setting?_eq_some_iff`: what is read is what the grammar
  allows.
-/

namespace RepoSurvey.Number

/-- Decimal digits, with their values. -/
inductive Digits : List Char → List Nat → Prop
  | one {c d} : Text.digitValue? c = some d → Digits [c] [d]
  | next {c d text values} : Text.digitValue? c = some d → Digits text values →
      Digits (c :: text) (d :: values)
  | low {c d text values} : Text.digitValue? c = some d → Digits text values →
      Digits (c :: '_' :: text) (d :: values)

/-- At most `limit` digits, perhaps behind a sign, and the number that they spell. -/
inductive IntegerLiteral (limit : Nat) : List Char → Int → Prop
  | unsigned {text values} : Digits text values → values.length ≤ limit →
      IntegerLiteral limit text (Text.ofDigits 10 values)
  | plus {text values} : Digits text values → values.length ≤ limit →
      IntegerLiteral limit ('+' :: text) (Text.ofDigits 10 values)
  | minus {text values} : Digits text values → values.length ≤ limit →
      IntegerLiteral limit ('-' :: text) (-(Text.ofDigits 10 values : Nat))

variable {limit : Nat} {text : List Char} {values : List Nat} {n : Int}

theorem Digits.exists_cons (h : Digits text values) :
    ∃ c rest, text = c :: rest ∧ (Text.digitValue? c).isSome = true := by
  cases h with
  | one hd => exact ⟨_, [], rfl, by simp [hd]⟩
  | next hd _ => exact ⟨_, _, rfl, by simp [hd]⟩
  | low hd _ => exact ⟨_, _, rfl, by simp [hd]⟩

theorem digitGroups?_eq_some_iff :
    digitGroups? Text.digitValue? text = some values ↔ Digits text values := by
  constructor
  · intro h
    induction text using digitGroups?.induct generalizing values with
    | case1 => cases h
    | case2 c =>
      obtain ⟨d, hd, rfl⟩ := Option.map_eq_some_iff.mp h
      exact .one hd
    | case3 c rest ih =>
      obtain ⟨d, hd, h⟩ := Option.bind_eq_some_iff.mp h
      obtain ⟨ds, hds, h⟩ := Option.bind_eq_some_iff.mp h
      cases h
      exact .low hd (ih hds)
    | case4 c rest hrest hlow ih =>
      rw [digitGroups?.eq_4 _ _ _ hrest hlow] at h
      obtain ⟨d, hd, h⟩ := Option.bind_eq_some_iff.mp h
      obtain ⟨ds, hds, h⟩ := Option.bind_eq_some_iff.mp h
      cases h
      exact .next hd (ih hds)
  · intro h
    induction h with
    | one hd => rw [digitGroups?, hd, Option.map_some]
    | @next c d text values hd h ih =>
      -- a low line is no digit
      obtain ⟨e, rest, rfl, he⟩ := h.exists_cons
      have hlow : ∀ tail, e :: rest = '_' :: tail → False := by
        rintro tail heq
        cases heq
        exact absurd he (by decide)
      rw [digitGroups?.eq_4 _ _ _ (List.cons_ne_nil e rest) hlow, hd, ih]
      rfl
    | low hd _ ih =>
      rw [digitGroups?, hd, ih]
      rfl

theorem splitSign_of_digits (h : Digits text values) : splitSign text = (false, text) := by
  obtain ⟨c, rest, rfl, hc⟩ := h.exists_cons
  refine splitSign.eq_3 _ ?_ ?_
  · rintro rest heq
    cases heq
    exact absurd hc (by decide)
  · rintro rest heq
    cases heq
    exact absurd hc (by decide)

/-- What is read of a text without blanks around it. -/
theorem setting?_eq_some_iff (htrim : Text.trim text = text) :
    setting? limit text = some n ↔ IntegerLiteral limit text n := by
  have hread : ∀ negative digits, splitSign text = (negative, digits) →
      (setting? limit text = some n ↔ ∃ values, Digits digits values ∧ values.length ≤ limit
        ∧ n = signed negative (Text.ofDigits 10 values)) := by
    intro negative digits hsign
    rw [setting?, htrim, hsign]
    constructor
    · intro h
      obtain ⟨values, hvalues, h⟩ := Option.bind_eq_some_iff.mp h
      obtain ⟨hlimit, h⟩ := Option.ite_none_left_eq_some.mp h
      exact ⟨values, digitGroups?_eq_some_iff.mp hvalues, by omega, (Option.some.inj h).symm⟩
    · rintro ⟨values, hvalues, hlimit, rfl⟩
      refine Option.bind_eq_some_iff.mpr ⟨values, digitGroups?_eq_some_iff.mpr hvalues, ?_⟩
      exact if_neg (by omega)
  constructor
  · intro h
    cases hsign : splitSign text with
    | mk negative digits =>
      obtain ⟨values, hvalues, hlimit, rfl⟩ := (hread negative digits hsign).mp h
      unfold splitSign at hsign
      split at hsign <;> cases hsign
      · exact .minus hvalues hlimit
      · exact .plus hvalues hlimit
      · exact .unsigned hvalues hlimit
  · intro h
    cases h with
    | unsigned hvalues hlimit =>
      exact (hread false _ (splitSign_of_digits hvalues)).mpr ⟨_, hvalues, hlimit, rfl⟩
    | plus hvalues hlimit => exact (hread false _ rfl).mpr ⟨_, hvalues, hlimit, rfl⟩
    | minus hvalues hlimit => exact (hread true _ rfl).mpr ⟨_, hvalues, hlimit, rfl⟩

end RepoSurvey.Number
