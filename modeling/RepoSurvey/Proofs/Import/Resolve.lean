import RepoSurvey.Import.Resolve
import RepoSurvey.Proofs.Disk.Lookup

/-!
# Where resolving an import fails

* `Import.Resolvable`: the probing for an import comes to an end, and does not start from the root
  of the file system, which has no name to add a suffix to;
* `Import.exists_resolve_ok_iff`: exactly then there is an answer.
-/

namespace RepoSurvey.Import

variable {disk : Disk}

/-- The target of an import that has the suffix of a script can be looked up; any other has a name,
and the candidates for it can be probed. -/
structure Resolvable (disk : Disk) (importer : Path) (literal : String) : Prop where
  script : SourceFile.isScript (targetOf importer literal).name = true →
    disk.Settles [targetOf importer literal]
  other : SourceFile.isScript (targetOf importer literal).name = false →
    (targetOf importer literal).segments ≠ [] ∧
      disk.Settles (candidates (targetOf importer literal))

theorem exists_firstThat_ok_iff {paths : List Path} :
    (∃ found, firstThat disk.isFile paths = .ok found) ↔ disk.Settles paths := by
  induction paths with
  | nil => exact iff_of_true ⟨none, rfl⟩ trivial
  | cons p rest ih => exact Disk.exists_probe_ok_iff ih

theorem exists_resolve_ok_iff {importer : Path} {literal : String} :
    (∃ found, resolve disk importer literal = .ok found)
      ↔ Resolvable disk importer literal := by
  unfold resolve
  dsimp only
  cases hscript : SourceFile.isScript (targetOf importer literal).name with
  | true =>
    rw [if_pos rfl, exists_firstThat_ok_iff]
    exact ⟨fun h => ⟨fun _ => h, fun hno => by rw [hscript] at hno; cases hno⟩,
      fun h => h.script hscript⟩
  | false =>
    rw [if_neg Bool.false_ne_true]
    cases hsegments : (targetOf importer literal).segments with
    | nil =>
      refine iff_of_false ?_ fun h => (h.other hscript).1 hsegments
      rintro ⟨_, hok⟩
      cases hok
    | cons s rest =>
      rw [List.isEmpty_cons, if_neg Bool.false_ne_true, exists_firstThat_ok_iff]
      refine ⟨fun h => ⟨fun hyes => ?_, fun _ => ⟨by simp [hsegments], h⟩⟩,
        fun h => (h.other hscript).2⟩
      rw [hscript] at hyes
      cases hyes

end RepoSurvey.Import
