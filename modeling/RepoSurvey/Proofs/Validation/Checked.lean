import RepoSurvey.Validation.Checked

/-!
# When checks succeed

A check that is made of others succeeds exactly if all of them do, and gives what is made of their
values.

* `Checked.map_eq_valid_iff`, `Checked.seq_eq_valid_iff`: the parts of a record;
* `Checked.andThen_eq_valid_iff`: one check after another;
* `Checked.failures_seq`: what stands in the way of a record;
* `Checked.eq_of_nonEmptyText`, `Checked.eq_of_unitReal`: checks of a value that is given in its own
  type.
-/

namespace RepoSurvey.Checked

variable {α β : Type}

theorem map_eq_valid_iff {f : α → β} {x : Checked α} {b : β} :
    f <$> x = .valid b ↔ ∃ a, x = .valid a ∧ f a = b := by
  cases x <;> simp [Functor.map, map]

theorem seq_eq_valid_iff {f : Checked (α → β)} {x : Checked α} {b : β} :
    f <*> x = .valid b ↔ ∃ g a, f = .valid g ∧ x = .valid a ∧ g a = b := by
  cases f <;> cases x <;> simp [Seq.seq, ap]

theorem andThen_eq_valid_iff {x : Checked α} {f : α → Checked β} {b : β} :
    x.andThen f = .valid b ↔ ∃ a, x = .valid a ∧ f a = .valid b := by
  cases x <;> simp [andThen]

theorem under_eq_valid_iff {key : Key} {x : Checked α} {a : α} :
    x.under key = .valid a ↔ x = .valid a := by
  cases x <;> simp [under]

theorem toExcept_eq_ok_iff {x : Checked α} {a : α} : x.toExcept = .ok a ↔ x = .valid a := by
  cases x <;> simp [toExcept]

theorem eq_of_nonEmptyText {s t : String} (h : nonEmptyText (.str s) = .valid t) : t = s := by
  obtain ⟨u, hu, h⟩ := andThen_eq_valid_iff.mp h
  cases hu
  split at h
  · cases h
  · cases h
    rfl

theorem eq_of_unitReal {x y : Binary64} (h : unitReal (.float x) = .valid y) : y = x := by
  obtain ⟨z, hz, h⟩ := andThen_eq_valid_iff.mp h
  cases hz
  split at h
  · cases h
  · split at h
    · cases h
    · cases h
      rfl

/-! ## Failures -/

/-- What stands in the way of a value. -/
def failures : Checked α → List Failure
  | .valid _ => []
  | .invalid failures => failures

theorem failures_map (f : α → β) (x : Checked α) : (f <$> x).failures = x.failures := by
  cases x <;> rfl

/-- The failures of the parts of a record, in turn. -/
theorem failures_seq (f : Checked (α → β)) (x : Checked α) :
    (f <*> x).failures = f.failures ++ x.failures := by
  cases f <;> cases x <;> simp [Seq.seq, ap, failures]

end RepoSurvey.Checked
