import Mathlib.Data.List.Chain
import Mathlib.Data.List.Nodup
import Mathlib.Logic.Relation

/-!
# Closed walks, cycles and simple paths

Walks of a relation are lists of what they pass. A closed walk steps from its last member back to
its first; a cycle is a closed walk that passes nothing twice.

* `closedSteps`: the steps of a closed walk, the last one back to the start;
* `ClosedWalk`, `Cycle`, `SimplePath`;
* `closedWalk_iff_isChain`: a closed walk is a chain with its first member again at the end;
* `exists_step_to`: every member is stepped to;
* `cycle_image_iff`: the cycles of the image of a relation;
* `exists_step_of_settled`: where everything finished has its successors excused or finished
  earlier, a closed walk of finished members has an excused step.
-/

namespace RepoSurvey

variable {ν : Type}

/-- The steps of a closed walk, the last one back to the start. -/
def closedSteps : List ν → List (ν × ν)
  | [] => []
  | v :: rest => (v :: rest).zip (rest ++ [v])

/-- A walk along a relation that ends where it starts, written without the end. -/
structure ClosedWalk (R : ν → ν → Prop) (w : List ν) : Prop where
  nonempty : w ≠ []
  steps : ∀ e ∈ closedSteps w, R e.1 e.2

/-- A closed walk without repetition. -/
structure Cycle (R : ν → ν → Prop) (c : List ν) : Prop extends ClosedWalk R c where
  nodup : c.Nodup

/-- A path without repetition, with its two ends. -/
structure SimplePath (R : ν → ν → Prop) (first last : ν) (p : List ν) : Prop where
  head : p.head? = some first
  last : p.getLast? = some last
  nodup : p.Nodup
  chain : p.IsChain R

/-! ## Steps -/

theorem map_fst_closedSteps (w : List ν) : (closedSteps w).map (·.1) = w := by
  cases w with
  | nil => rfl
  | cons v rest => exact List.map_fst_zip (by simp)

theorem map_snd_closedSteps (v : ν) (rest : List ν) :
    (closedSteps (v :: rest)).map (·.2) = rest ++ [v] :=
  List.map_snd_zip (by simp)

theorem exists_step_to {w : List ν} {v : ν} (hv : v ∈ w) : ∃ u, (u, v) ∈ closedSteps w := by
  cases w with
  | nil => simp at hv
  | cons a rest =>
    have hv' : v ∈ (closedSteps (a :: rest)).map (·.2) := by
      rw [map_snd_closedSteps]
      simpa [or_comm] using hv
    obtain ⟨e, he, rfl⟩ := List.mem_map.mp hv'
    exact ⟨e.1, he⟩

theorem fst_mem_of_mem_closedSteps {w : List ν} {e : ν × ν} (he : e ∈ closedSteps w) :
    e.1 ∈ w := by
  have := List.mem_map_of_mem (f := (·.1)) he
  rwa [map_fst_closedSteps] at this

theorem closedSteps_map {μ : Type} (f : ν → μ) (w : List ν) :
    closedSteps (w.map f) = (closedSteps w).map (Prod.map f f) := by
  cases w with
  | nil => rfl
  | cons v rest => simp [closedSteps, ← List.zip_map]

theorem forall_mem_zip_iff_isChain {R : ν → ν → Prop} (x v : ν) (rest : List ν) :
    (∀ e ∈ (v :: rest).zip (rest ++ [x]), R e.1 e.2) ↔ (v :: (rest ++ [x])).IsChain R := by
  induction rest generalizing v with
  | nil => simp
  | cons w rest ih =>
    rw [List.cons_append, List.isChain_cons_cons, ← ih w]
    simp

theorem closedWalk_iff_isChain {R : ν → ν → Prop} (v : ν) (rest : List ν) :
    ClosedWalk R (v :: rest) ↔ (v :: (rest ++ [v])).IsChain R := by
  rw [← forall_mem_zip_iff_isChain]
  exact ⟨fun h => h.steps, fun h => ⟨by simp, h⟩⟩

namespace ClosedWalk

variable {R : ν → ν → Prop} {w : List ν}

theorem map {μ : Type} {T : μ → μ → Prop} (f : ν → μ) (h : ClosedWalk R w)
    (hf : ∀ u v, R u v → T (f u) (f v)) : ClosedWalk T (w.map f) := by
  refine ⟨by simpa using h.nonempty, fun e he => ?_⟩
  rw [closedSteps_map] at he
  obtain ⟨d, hd, rfl⟩ := List.mem_map.mp he
  exact hf _ _ (h.steps d hd)

end ClosedWalk

/-- The cycles of the image of a relation are the images of its cycles, if what takes part in the
relation is found again from its image. -/
theorem cycle_image_iff {μ : Type} {R : ν → ν → Prop} {S : μ → μ → Prop} (f : ν → μ)
    (back : μ → ν) (hback : ∀ u v, R u v → back (f u) = u ∧ back (f v) = v)
    (hS : ∀ a b, S a b ↔ ∃ u v, R u v ∧ f u = a ∧ f v = b) (c : List μ) :
    Cycle S c ↔ ∃ m, Cycle R m ∧ c = m.map f := by
  constructor
  · intro h
    have hfront : ∀ a ∈ c, f (back a) = a := by
      intro a ha
      obtain ⟨b, hb⟩ := exists_step_to ha
      obtain ⟨u, v, huv, _, hv⟩ := (hS b a).mp (h.steps _ hb)
      rw [← hv, (hback u v huv).2]
    have hmap : (c.map back).map f = c := by
      rw [List.map_map]
      exact (List.map_congr_left hfront).trans (List.map_id c)
    refine ⟨c.map back, ⟨h.toClosedWalk.map back ?_, ?_⟩, hmap.symm⟩
    · intro a b hab
      obtain ⟨u, v, huv, rfl, rfl⟩ := (hS a b).mp hab
      rw [(hback u v huv).1, (hback u v huv).2]
      exact huv
    · rw [← hmap] at h
      exact h.nodup.of_map
  · rintro ⟨m, hm, rfl⟩
    have hleft : ∀ v ∈ m, back (f v) = v := by
      intro v hv
      obtain ⟨u, hu⟩ := exists_step_to hv
      exact (hback u v (hm.steps _ hu)).2
    refine ⟨hm.toClosedWalk.map f fun u v huv => (hS _ _).mpr ⟨u, v, huv, rfl, rfl⟩, ?_⟩
    refine hm.nodup.map_on fun u hu v hv heq => ?_
    rw [← hleft u hu, ← hleft v hv, heq]

/-! ## An order in which everything is finished -/

/-- Everything in the list, the last finished first, has each of its successors excused or
finished before it. -/
def Settled (next : ν → List ν) (excused : ν → ν → Prop) : List ν → Prop
  | [] => True
  | u :: earlier => (∀ v ∈ next u, excused u v ∨ v ∈ earlier) ∧ Settled next excused earlier

theorem Settled.mono {next : ν → List ν} {P Q : ν → ν → Prop} {done : List ν}
    (h : Settled next P done) (hPQ : ∀ u v, P u v → Q u v) : Settled next Q done := by
  induction done with
  | nil => trivial
  | cons u earlier ih =>
    refine ⟨fun v hv => ?_, ih h.2⟩
    rcases h.1 v hv with hP | he
    · exact Or.inl (hPQ u v hP)
    · exact Or.inr he

theorem Settled.excused_or_mem {next : ν → List ν} {P : ν → ν → Prop} {done : List ν}
    (h : Settled next P done) {u v : ν} (hu : u ∈ done) (hv : v ∈ next u) :
    P u v ∨ v ∈ done := by
  induction done with
  | nil => simp at hu
  | cons a earlier ih =>
    rcases List.mem_cons.mp hu with rfl | hu
    · rcases h.1 v hv with hP | he
      · exact Or.inl hP
      · exact Or.inr (List.mem_cons_of_mem _ he)
    · rcases ih h.2 hu with hP | he
      · exact Or.inl hP
      · exact Or.inr (List.mem_cons_of_mem _ he)

/-- Along steps that are not excused things finish ever earlier, so no closed walk has only such
steps. -/
theorem exists_step_of_settled {next : ν → List ν} {P : ν → ν → Prop} {done : List ν}
    (h : Settled next P done) (hd : done.Nodup) {w : List ν}
    (hw : ClosedWalk (fun u v => v ∈ next u) w) (hin : ∀ v ∈ w, v ∈ done) :
    ∃ e ∈ closedSteps w, P e.1 e.2 := by
  by_contra hno
  have hnone : ∀ e ∈ closedSteps w, ¬ P e.1 e.2 := fun e he hP => hno ⟨e, he, hP⟩
  clear hno
  induction done with
  | nil =>
    obtain ⟨v, hv⟩ := List.exists_mem_of_ne_nil w hw.nonempty
    exact absurd (hin v hv) (by simp)
  | cons a earlier ih =>
    obtain ⟨ha, hd'⟩ := List.nodup_cons.mp hd
    -- What steps to `a` would have finished after it, so `a` is not on the walk.
    have hnot : a ∉ w := by
      intro haw
      obtain ⟨u, hu⟩ := exists_step_to haw
      have hstep := hw.steps _ hu
      rcases List.mem_cons.mp (hin u (fst_mem_of_mem_closedSteps hu)) with rfl | hue
      · rcases h.1 u hstep with hP | he
        · exact hnone _ hu hP
        · exact ha he
      · rcases h.2.excused_or_mem hue hstep with hP | he
        · exact hnone _ hu hP
        · exact ha he
    refine ih h.2 hd' fun v hv => ?_
    rcases List.mem_cons.mp (hin v hv) with rfl | hve
    · exact absurd hv hnot
    · exact hve

end RepoSurvey
