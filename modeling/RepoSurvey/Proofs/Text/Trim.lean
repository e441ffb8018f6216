import RepoSurvey.Proofs.Traversal
import RepoSurvey.Text.Blank

/-!
# Texts that are trimmed

* `Text.head?_trim`, `Text.getLast?_trim`: no blanks are left at the two ends of a text;
* `Text.trim_eq_self_iff`: a text without blanks there is left as it is;
* `Text.trimChar_replicate`: marks around a text are taken away.
-/

namespace RepoSurvey.Text

variable {text : List Char} {c : Char}

theorem head?_trim : ∀ c, (trim text).head? = some c → isBlank c = false := by
  intro c hc
  have hprefix : trim text <+: trimLeft text := by
    have hsuffix := List.dropWhile_suffix isBlank (l := (trimLeft text).reverse)
    simpa [trim, trimRight] using List.reverse_prefix.mpr hsuffix
  obtain ⟨more, hmore⟩ := hprefix
  obtain ⟨rest, hrest⟩ := List.head?_eq_some_iff.mp hc
  have hfirst : (text.dropWhile isBlank).head? = some c := by
    show (trimLeft text).head? = some c
    rw [← hmore, hrest]
    rfl
  exact not_of_head?_dropWhile c hfirst

theorem getLast?_trim : ∀ c, (trim text).getLast? = some c → isBlank c = false := by
  intro c hc
  rw [trim, trimRight, List.getLast?_reverse] at hc
  exact not_of_head?_dropWhile c hc

theorem mem_of_mem_trim (h : c ∈ trim text) : c ∈ text := by
  have hleft := List.mem_reverse.mp ((List.dropWhile_sublist _).subset (List.mem_reverse.mp h))
  exact (List.dropWhile_sublist _).subset hleft

/-- A text without blanks at its two ends is left as it is. -/
theorem trim_eq_self_iff : trim text = text
    ↔ (∀ c, text.head? = some c → isBlank c = false)
      ∧ ∀ c, text.getLast? = some c → isBlank c = false := by
  constructor
  · intro h
    rw [← h]
    exact ⟨head?_trim, getLast?_trim⟩
  · rintro ⟨hhead, hlast⟩
    have hleft : trimLeft text = text := (takeWhile_stop (List.forall_mem_nil _) hhead).2
    have hright : text.reverse.dropWhile isBlank = text.reverse :=
      (takeWhile_stop (List.forall_mem_nil _) (by simpa using hlast)).2
    rw [trim, hleft, trimRight, hright, List.reverse_reverse]

/-- Marks in front of a text that starts with something else. -/
theorem dropWhile_replicate_append (hne : text ≠ []) (hhead : text.head? ≠ some c) (n : Nat)
    (rest : List Char) :
    (List.replicate n c ++ (text ++ rest)).dropWhile (· == c) = text ++ rest := by
  refine (takeWhile_stop (fun d hd => ?_) fun d hd => ?_).2
  · exact beq_iff_eq.mpr (List.eq_of_mem_replicate hd)
  · rw [List.head?_append_of_ne_nil text hne] at hd
    rw [beq_eq_false_iff_ne]
    rintro rfl
    exact hhead hd

/-- Marks around a text that has none at its two ends are taken away. -/
theorem trimChar_replicate (hne : text ≠ []) (hhead : text.head? ≠ some c)
    (hlast : text.getLast? ≠ some c) (front back : Nat) :
    trimChar c (List.replicate front c ++ text ++ List.replicate back c) = text := by
  have hleft := dropWhile_replicate_append hne hhead front (List.replicate back c)
  have hright := dropWhile_replicate_append (List.reverse_ne_nil_iff.mpr hne)
    (by rwa [List.head?_reverse]) back []
  rw [List.append_nil] at hright
  rw [trimChar, List.append_assoc, hleft, List.reverse_append, List.reverse_replicate, hright,
    List.reverse_reverse]

end RepoSurvey.Text
