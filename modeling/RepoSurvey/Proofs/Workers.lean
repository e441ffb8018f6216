import Mathlib.Data.List.Perm.Basic
import Mathlib.Logic.Relation

/-!
# Workers that share a list of tasks

Every task is taken up by a worker that is free, in the order of the list, and finished at any
time; the results are put in the places of their tasks.

* `Workers.Step`: a worker takes up a task or finishes one;
* `Workers.Delivers`: a run to the end and its results in order;
* `Workers.delivers_iff`: whatever the number of workers and however the steps interleave, the
  results are those of the tasks one after another, and there is such a run.
-/

namespace RepoSurvey.Workers

open Relation (ReflTransGen)

variable {α β : Type} {count : Nat} {f : α → β}

/-- The tasks that wait, those that are worked on, and the results, each with the place of its task
in the list. -/
structure State (α β : Type) where
  waiting : List (α × Nat)
  working : List (α × Nat)
  done : List (β × Nat)

def State.initial (tasks : List α) : State α β := ⟨tasks.zipIdx, [], []⟩

/-- A step of `count` workers that work out `f`. -/
inductive Step (count : Nat) (f : α → β) : State α β → State α β → Prop
  | start {task waiting working done} (free : working.length < count) :
      Step count f ⟨task :: waiting, working, done⟩ ⟨waiting, task :: working, done⟩
  | finish {waiting before task after done} :
      Step count f ⟨waiting, before ++ task :: after, done⟩
        ⟨waiting, before ++ after, (f task.1, task.2) :: done⟩

/-- The results of a run of the workers to its end, in the order of the tasks. -/
def Delivers (count : Nat) (f : α → β) (tasks : List α) (results : List β) : Prop :=
  ∃ done, ReflTransGen (Step count f) (.initial tasks) ⟨[], [], done⟩ ∧ done.Perm results.zipIdx

/-- The results that there are and those that are still to come. -/
def State.outcome (f : α → β) (s : State α β) : List (β × Nat) :=
  (s.waiting ++ s.working).map (Prod.map f id) ++ s.done

theorem outcome_initial (f : α → β) (tasks : List α) :
    (State.initial tasks).outcome f = (tasks.map f).zipIdx := by
  simp [State.outcome, State.initial, List.zipIdx_map]

theorem Step.outcome {s t : State α β} (h : Step count f s t) :
    (t.outcome f).Perm (s.outcome f) := by
  cases h with
  | @start task waiting working done free =>
    have hmove : (waiting ++ task :: working).Perm (task :: waiting ++ working) :=
      List.perm_middle
    exact (hmove.map _).append_right done
  | @finish waiting before task after done =>
    have hmove : ((waiting ++ (before ++ after)).map (Prod.map f id)
          ++ Prod.map f id task :: done).Perm
        (Prod.map f id task :: (waiting ++ (before ++ after)).map (Prod.map f id) ++ done) :=
      List.perm_middle
    have htake : (task :: (waiting ++ (before ++ after))).Perm
        (waiting ++ (before ++ task :: after)) := by
      rw [← List.append_assoc, ← List.append_assoc]
      exact List.perm_middle.symm
    exact hmove.trans ((htake.map (Prod.map f id)).append_right done)

theorem outcome_of_steps {s t : State α β} (h : ReflTransGen (Step count f) s t) :
    (t.outcome f).Perm (s.outcome f) := by
  induction h with
  | refl => exact List.Perm.refl _
  | tail _ step ih => exact step.outcome.trans ih

/-- One worker is enough to come to the end. -/
theorem exists_end (hcount : 1 ≤ count) (waiting : List (α × Nat)) (done : List (β × Nat)) :
    ∃ done', ReflTransGen (Step count f) ⟨waiting, [], done⟩ ⟨[], [], done'⟩ := by
  induction waiting generalizing done with
  | nil => exact ⟨done, .refl⟩
  | cons task waiting ih =>
    obtain ⟨done', hrest⟩ := ih ((f task.1, task.2) :: done)
    have hstart : Step count f ⟨task :: waiting, [], done⟩ ⟨waiting, [task], done⟩ :=
      .start (by simp; omega)
    have hfinish : Step count f ⟨waiting, [task], done⟩
        ⟨waiting, [], (f task.1, task.2) :: done⟩ :=
      @Step.finish α β count f waiting [] task [] done
    exact ⟨done', .head hstart (.head hfinish hrest)⟩

theorem eq_of_perm_zipIdx {xs ys : List β} (h : xs.zipIdx.Perm ys.zipIdx) : xs = ys := by
  apply List.ext_getElem?
  intro i
  apply Option.ext
  intro b
  have hx : (b, i) ∈ xs.zipIdx ↔ xs[i]? = some b := List.mem_zipIdx_iff_getElem?
  have hy : (b, i) ∈ ys.zipIdx ↔ ys[i]? = some b := List.mem_zipIdx_iff_getElem?
  rw [← hx, ← hy]
  exact h.mem_iff

theorem delivers_iff (hcount : 1 ≤ count) {tasks : List α} {results : List β} :
    Delivers count f tasks results ↔ results = tasks.map f := by
  have hall : ∀ done, ReflTransGen (Step count f) (.initial tasks) ⟨[], [], done⟩ →
      done.Perm (tasks.map f).zipIdx := by
    intro done hrun
    have houtcome := outcome_of_steps hrun
    rw [outcome_initial] at houtcome
    exact houtcome
  constructor
  · rintro ⟨done, hrun, hplaces⟩
    exact eq_of_perm_zipIdx (hplaces.symm.trans (hall done hrun))
  · rintro rfl
    obtain ⟨done, hrun⟩ := exists_end hcount (f := f) tasks.zipIdx []
    exact ⟨done, hrun, hall done hrun⟩

end RepoSurvey.Workers
