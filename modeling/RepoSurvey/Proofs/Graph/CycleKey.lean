import Mathlib
import RepoSurvey.Proofs.Graph.CycleSoundness

/-!
# Keys of cycles

A key is made of the labels of the members in order, with bars between them. So it does not depend
on where a cycle starts. It tells the members as long as no label has a bar in it.

* `CycleSearch.Unbarred`: a label without bars;
* `CycleSearch.key_eq_iff_perm`, `CycleSearch.key_eq_iff_sameMembers`: cycles with such labels have
  one key exactly if they have the same members;
* `CycleSearch.State.closing?`: the cycle that the search is about to look at;
* `CycleSearch.mem_cycles_of_closing?`: it is found, unless its key is that of a cycle found before;
* `CycleSearch.key_tells_members`: what the keys tell, and that no other cycle is lost;
* `CycleSearch.not_key_tells_members`: with bars in a label, one is.
-/

namespace RepoSurvey.CycleSearch

/-- A label that is not empty and has no bar in it. -/
def Unbarred (label : String) : Prop := label ≠ "" ∧ '|' ∉ label.toList

instance (label : String) : Decidable (Unbarred label) :=
  inferInstanceAs (Decidable (label ≠ "" ∧ '|' ∉ label.toList))

/-- The two cycles have the same members. -/
def SameMembers {ν : Type} (c d : List ν) : Prop := ∀ v, v ∈ c ↔ v ∈ d

/-! ## Joining with bars -/

theorem splitOn_joined {labels : List String} (hne : labels ≠ [])
    (hlabels : ∀ l ∈ labels, Unbarred l) :
    ("|".intercalate labels).toList.splitOn '|' = labels.map String.toList := by
  rw [String.toList_intercalate]
  apply List.splitOn_intercalate '|'
  · intro chars hchars
    obtain ⟨l, hl, rfl⟩ := List.mem_map.mp hchars
    exact (hlabels l hl).2
  · simpa using hne

/-- Labels joined with bars are told apart. -/
theorem joined_inj {labels others : List String} (hlabels : ∀ l ∈ labels, Unbarred l)
    (hothers : ∀ l ∈ others, Unbarred l)
    (h : "|".intercalate labels = "|".intercalate others) : labels = others := by
  have hnil : ∀ {ls : List String}, (∀ l ∈ ls, Unbarred l) → "|".intercalate ls = "" → ls = [] := by
    intro ls hls hempty
    by_contra hne
    have hsplit := splitOn_joined hne hls
    rw [hempty] at hsplit
    cases ls with
    | nil => exact hne rfl
    | cons l rest =>
      have hchars : l.toList = [] := (List.cons.inj hsplit).1.symm
      exact (hls l List.mem_cons_self).1 (String.toList_eq_nil_iff.mp hchars)
  by_cases hl : labels = []
  · subst hl
    exact (hnil hothers h.symm).symm
  · by_cases ho : others = []
    · subst ho
      exact hnil hlabels h
    · have hsplit := splitOn_joined hl hlabels
      rw [h, splitOn_joined ho hothers] at hsplit
      exact (List.map_injective_iff.mpr (fun _ _ => String.toList_inj.mp) hsplit).symm

/-! ## Keys and members -/

section Members

variable {ν : Type} {label : ν → String} {c d : List ν}

/-- A key does not depend on the order of the members. -/
theorem key_eq_of_perm (h : (c.map label).Perm (d.map label)) : key label c = key label d := by
  have hordered : ∀ labels : List String,
      (labels.mergeSort fun a b => a ≤ b).Pairwise fun a b => decide (a ≤ b) = true := by
    intro labels
    apply List.pairwise_mergeSort
    · intro a b c hab hbc
      exact decide_eq_true (String.le_trans (of_decide_eq_true hab) (of_decide_eq_true hbc))
    · intro a b
      simpa using String.le_total a b
  have hperm := ((List.mergeSort_perm (c.map label) fun a b => decide (a ≤ b)).trans h).trans
    (List.mergeSort_perm (d.map label) fun a b => decide (a ≤ b)).symm
  have hsame := hperm.eq_of_pairwise
    (fun a b _ _ hab hba => String.le_antisymm (of_decide_eq_true hab) (of_decide_eq_true hba))
    (hordered _) (hordered _)
  rw [key, key, hsame]

theorem key_eq_iff_perm (hc : ∀ v ∈ c, Unbarred (label v)) (hd : ∀ v ∈ d, Unbarred (label v)) :
    key label c = key label d ↔ (c.map label).Perm (d.map label) := by
  constructor
  · intro h
    have hsorted : ∀ {e : List ν}, (∀ v ∈ e, Unbarred (label v)) →
        ∀ l ∈ (e.map label).mergeSort (fun a b => a ≤ b), Unbarred l := by
      intro e he l hl
      obtain ⟨v, hv, rfl⟩ := List.mem_map.mp (List.mem_mergeSort.mp hl)
      exact he v hv
    have hsame := joined_inj (hsorted hc) (hsorted hd) h
    have hperm := List.mergeSort_perm (c.map label) fun a b => decide (a ≤ b)
    rw [hsame] at hperm
    exact hperm.symm.trans (List.mergeSort_perm _ _)
  · exact key_eq_of_perm

end Members

/-- Two lists of names without bars and without repetition have one key exactly if they have the
same members. -/
theorem key_eq_iff_sameMembers {c d : List String} (hc : c.Nodup) (hd : d.Nodup)
    (hcs : ∀ name ∈ c, Unbarred name) (hds : ∀ name ∈ d, Unbarred name) :
    key id c = key id d ↔ SameMembers c d := by
  have hperm : key id c = key id d ↔ (c.map id).Perm (d.map id) := key_eq_iff_perm hcs hds
  rw [hperm, List.map_id, List.map_id]
  exact List.perm_ext_iff_of_nodup hc hd

/-! ## Cycles that are closed -/

section Closing

variable {ν : Type} [DecidableEq ν]

/-- The cycle that the next successor closes, if it is on the path. -/
def State.closing? (s : State ν) : Option (List ν) :=
  match s.pending with
  | (v :: _) :: _ =>
    if v ∈ s.visited ∧ v ∈ s.onPath then
      (s.positionOf? v).map fun i => s.path.reverse.drop i
    else none
  | _ => none

variable {g : Digraph ν} {label : ν → String} {order : Option (List ν)} {s : State ν} {c : List ν}

/-- It is the part of the path from the successor on. -/
theorem closing?_eq_some (h : Aligned g s) (hc : s.closing? = some c) :
    ∃ v front back more pending, s.path = front ++ v :: back
      ∧ s.pending = (v :: more) :: pending ∧ c = v :: front.reverse := by
  unfold State.closing? at hc
  split at hc
  · rename_i v more pending hpending
    split at hc
    · rename_i hv
      obtain ⟨front, back, hpath⟩ := List.append_of_mem (h.onPath ▸ hv.2)
      rw [positionOf?_eq h front back hpath] at hc
      refine ⟨v, front, back, more, pending, hpath, hpending, ?_⟩
      rw [← Option.some.inj hc, hpath]
      simp
    · cases hc
  · cases hc

/-- The step keeps it if its key is new. -/
theorem exists_step_of_closing? (label : ν → String) (h : Aligned g s)
    (hc : s.closing? = some c) :
    ∃ t, step g label s = some t
      ∧ t.found = if key label c ∈ s.seen then s.found else s.found ++ [c] := by
  obtain ⟨v, front, back, more, pending, hpath, hpending, rfl⟩ := closing?_eq_some h hc
  have hon : v ∈ s.path := by simp [hpath]
  have hclose : step g label s = s.close? label v (more :: pending) := by
    simp [step, hpending, h.visited v hon, h.onPath, hon]
  rw [hclose, State.close?, positionOf?_eq h front back hpath]
  have hcycle : s.path.reverse.drop back.length = v :: front.reverse := by simp [hpath]
  simp only [hcycle]
  by_cases hk : key label (v :: front.reverse) ∈ s.seen
  · exact ⟨_, if_pos hk, by rw [if_pos hk]⟩
  · exact ⟨_, if_neg hk, by rw [if_neg hk]⟩

theorem Underway.reports {order : List ν} (h : Underway g label order s) :
    Aligned g s ∧ Reports g label s :=
  h.invariant (Reports g label) reports_initial
    (fun _ _ _ hpath hr _ _ hfresh => hr.enter hpath hfresh) fun _ _ ha hr hm => hm.reports ha hr

/-- A cycle that the search comes to is found in the end, unless one with its key was found
before. -/
theorem mem_cycles_of_closing? (h : Underway g label (order.getD g.nodes) s)
    (hc : s.closing? = some c) :
    c ∈ g.cycles label order ∨ ∃ d ∈ s.found, key label d = key label c := by
  obtain ⟨ha, hr⟩ := h.reports
  obtain ⟨t, hstep, hfound⟩ := exists_step_of_closing? label ha hc
  by_cases hk : key label c ∈ s.seen
  · have hmem : key label c ∈ s.found.map (key label) := by
      rw [hr.keys]
      exact List.mem_reverse.mpr hk
    obtain ⟨d, hd, hkey⟩ := List.mem_map.mp hmem
    exact Or.inr ⟨d, hd, hkey⟩
  · rw [if_neg hk] at hfound
    have hpending : s.pending ≠ [] := by
      obtain ⟨v, _, _, more, pending, _, hpending, _⟩ := closing?_eq_some ha hc
      simp [hpending]
    obtain ⟨u, hu, hkept⟩ := (h.next hpending hstep).found_kept
    have hcycles : g.cycles label order = u.found := by simp [Digraph.cycles, hu]
    refine Or.inl ?_
    rw [hcycles]
    apply hkept.subset
    simp [hfound]

end Closing

/-- Cycles with the same members have one key, whatever they are called. Where no name has a bar in
it the converse holds as well, so that keys tell the members. In a graph of such names the search
keeps every cycle it comes to, unless one with the same members was found before. -/
theorem key_tells_members (c d : List String) (hc : c.Nodup) (hd : d.Nodup) (g : Digraph String)
    (order : Option (List String)) :
    (SameMembers c d → key id c = key id d)
      ∧ ((∀ name ∈ c ++ d, Unbarred name) → (key id c = key id d ↔ SameMembers c d))
      ∧ ((∀ name ∈ g.nodes, Unbarred name) →
        ∀ s cycle, Underway g id (order.getD g.nodes) s → s.closing? = some cycle →
          (∀ e ∈ s.found, ¬ SameMembers e cycle) → cycle ∈ g.cycles id order) := by
  refine ⟨?_, ?_, ?_⟩
  · intro hsame
    exact key_eq_of_perm (((List.perm_ext_iff_of_nodup hc hd).mpr hsame).map id)
  · intro hnames
    obtain ⟨hcs, hds⟩ := List.forall_mem_append.mp hnames
    exact key_eq_iff_sameMembers hc hd hcs hds
  · intro hnodes s cycle hs hclosing hnew
    rcases mem_cycles_of_closing? hs hclosing with hfound | ⟨e, he, hkey⟩
    · exact hfound
    · exfalso
      obtain ⟨ha, hr⟩ := hs.reports
      obtain ⟨v, front, back, _, _, hpath, _, rfl⟩ := closing?_eq_some ha hclosing
      refine hnew e he ((key_eq_iff_sameMembers (hr.cycle e he).nodup (nodup_reported ha hpath)
        (fun x hx => ?_) fun x hx => ?_).mp hkey)
      · exact hnodes x (ha.nodes x (hr.visited e he x hx))
      · exact hnodes x (ha.nodes x (ha.visited x (mem_path_of_mem_reported hpath hx)))

/-- Two files that import each other. -/
def pairGraph : Digraph String := Digraph.empty.addEdges [("a.ts", "b.ts"), ("b.ts", "a.ts")]

theorem key_tells_members_pair :
    key id ["a.ts", "b.ts"] = key id ["b.ts", "a.ts"]
      ∧ key id ["a.ts", "b.ts"] ≠ key id ["a.ts"]
      ∧ ["a.ts", "b.ts"] ∈ pairGraph.cycles id none := by
  let first : State String := State.initial.enter pairGraph "a.ts"
  let second : State String := State.enter pairGraph "b.ts" { first with pending := [[]] }
  have horder : pairGraph.nodes = [] ++ "a.ts" :: ["b.ts"] := rfl
  have hfirst : Underway pairGraph id pairGraph.nodes first :=
    .start horder rfl (by decide) (by decide)
  have hsecond : Underway pairGraph id pairGraph.nodes second :=
    hfirst.next (by decide) (by rfl)
  have hsame : SameMembers ["a.ts", "b.ts"] ["b.ts", "a.ts"] := fun v => by simp [or_comm]
  have hother : ¬ SameMembers ["a.ts", "b.ts"] ["a.ts"] := fun h =>
    absurd ((h "b.ts").mp (by decide)) (by decide)
  obtain ⟨hone, _, _⟩ := key_tells_members ["a.ts", "b.ts"] ["b.ts", "a.ts"] (by decide) (by decide)
    pairGraph none
  obtain ⟨_, htold, hkept⟩ := key_tells_members ["a.ts", "b.ts"] ["a.ts"] (by decide) (by decide)
    pairGraph none
  refine ⟨hone hsame, fun h => hother ((htold (by decide)).mp h), ?_⟩
  exact hkept (by decide) second _ hsecond (by rfl)
    (by simp [second, first, State.enter, State.initial])

/-- Two files that import each other, and one that imports itself and whose name reads like the
names of both with a bar between them. -/
def barredGraph : Digraph String :=
  Digraph.empty.addEdges [("a.ts", "b.ts"), ("b.ts", "a.ts"), ("a.ts|b.ts", "a.ts|b.ts")]

/-- With bars in names two sets of members have one key, and of two cycles one is lost. -/
theorem not_key_tells_members :
    ¬ (∀ c d : List String, c.Nodup → d.Nodup →
        (∀ name ∈ c ++ d, name ≠ "" ∧ '\x00' ∉ name.toList) →
        (key id c = key id d ↔ SameMembers c d))
      ∧ Cycle barredGraph.Adj ["a.ts|b.ts"]
      ∧ ∀ d ∈ barredGraph.cycles id none, ¬ SameMembers d ["a.ts|b.ts"] := by
  refine ⟨fun h => ?_, ⟨⟨by simp, ?_⟩, by simp⟩, ?_⟩
  · have hsame := (h ["a.ts", "b.ts"] ["a.ts|b.ts"] (by decide) (by decide) (by decide)).mp (by cbv)
    exact absurd ((hsame "a.ts").mp (by decide)) (by decide)
  · have hsteps : closedSteps ["a.ts|b.ts"] = [("a.ts|b.ts", "a.ts|b.ts")] := rfl
    rw [hsteps, List.forall_mem_singleton]
    exact (Digraph.adj_addEdges).mpr (Or.inr (by decide))
  · have hfound : barredGraph.cycles id none = [["a.ts", "b.ts"]] := by cbv
    rw [hfound, List.forall_mem_singleton]
    intro hsame
    exact absurd ((hsame "a.ts").mp (by decide)) (by decide)

end RepoSurvey.CycleSearch
