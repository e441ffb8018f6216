import Mathlib.Algebra.GroupWithZero.Nat
import RepoSurvey.Proofs.Graph.Order
import RepoSurvey.Table

/-!
# Reading tables

* `Table.mem_of_get?`, `Table.mem_put`: entries of a table that is read or written;
* `Table.getD_get?_adjust`: an entry that is changed in place;
* `Table.grouped`: members put in groups by their keys, with `Table.getD_get?_grouped` and
  `Table.perm_flatMap_grouped`;
* `Table.get?_ofEntries`, `Table.names_ofEntries`: a table of entries in which names come again;
* `Table.get?_putAll`: a table with entries of another put in;
* `Table.mapSome`: the entries whose values are taken over, with `Table.get?_mapSome`;
* `Table.perm_sorted`, `Table.ascending_sorted`: the entries in ascending order of names.
-/

namespace RepoSurvey.Table

variable {α : Type}

theorem mem_of_get? {t : Table α} {name : String} {a : α} (h : t.get? name = some a) :
    (name, a) ∈ t := by
  induction t with
  | nil => cases h
  | cons e rest ih =>
    obtain ⟨n, b⟩ := e
    rw [get?] at h
    split at h
    · rename_i hn
      cases hn
      cases h
      exact List.mem_cons_self
    · exact List.mem_cons_of_mem _ (ih h)

theorem mem_put {t : Table α} {name : String} {a : α} {e : String × α}
    (h : e ∈ t.put name a) : e = (name, a) ∨ e ∈ t := by
  induction t with
  | nil => exact Or.inl (List.mem_singleton.mp h)
  | cons first rest ih =>
    obtain ⟨n, b⟩ := first
    rw [put] at h
    split at h
    · rename_i hn
      cases hn
      rcases List.mem_cons.mp h with rfl | h
      · exact Or.inl rfl
      · exact Or.inr (List.mem_cons_of_mem _ h)
    · rcases List.mem_cons.mp h with rfl | h
      · exact Or.inr List.mem_cons_self
      · exact (ih h).imp_right (List.mem_cons_of_mem _)

theorem get?_append (t u : Table α) (name : String) :
    get? (t ++ u) name = (t.get? name).or (u.get? name) := by
  induction t with
  | nil => rfl
  | cons e rest ih =>
    obtain ⟨n, a⟩ := e
    rw [List.cons_append, get?, get?]
    split
    · rfl
    · exact ih

theorem get?_eq_none_iff {t : Table α} {name : String} : t.get? name = none ↔ name ∉ t.names := by
  induction t with
  | nil => simp [get?, names]
  | cons e rest ih =>
    obtain ⟨n, a⟩ := e
    rw [get?, names, List.map_cons, List.mem_cons, not_or, ← names, ← ih]
    by_cases hn : n = name
    · simp [hn]
    · simp [hn, Ne.symm hn]

theorem get?_erase_self (t : Table α) (name : String) : (t.erase name).get? name = none := by
  rw [get?_eq_none_iff, names, erase]
  simp

theorem nodup_names_erase {t : Table α} (h : t.names.Nodup) (name : String) :
    (t.erase name).names.Nodup :=
  h.sublist (List.filter_sublist.map _)

/-! ## Entries that are changed in place -/

/-- What stands under a name after an entry is changed. -/
theorem getD_get?_adjust (t : Table α) (name other : String) (a : α) (f : α → α) :
    ((t.adjust name a f).get? other).getD a
      = if name = other then f ((t.get? name).getD a) else (t.get? other).getD a := by
  rw [adjust]
  split
  · rename_i hsame
    rw [← hsame, get?_put_self, Option.getD_some]
  · rename_i hother
    rw [get?_put_of_ne t _ hother]

theorem sum_adjust_succ (t : Table Nat) (name : String) :
    ((t.adjust name 0 (· + 1)).map (·.2)).sum = (t.map (·.2)).sum + 1 := by
  unfold adjust
  induction t with
  | nil => rfl
  | cons e rest ih =>
    obtain ⟨n, count⟩ := e
    by_cases hn : n = name
    · simp [put, get?, hn]
      omega
    · simp only [put, get?, hn, ↓reduceIte, List.map_cons, List.sum_cons, ih]
      omega

/-! ## Members in groups -/

section Grouped

variable {β γ : Type} {key : β → String} {value : β → α}

/-- A table with more members put behind those that have the same key. -/
def grouped (key : β → String) (value : β → α) (xs : List β) (t : Table (List α)) :
    Table (List α) :=
  xs.foldl (fun t x => t.adjust (key x) [] fun values => values ++ [value x]) t

/-- A group holds the members with its key, in their order. -/
theorem getD_get?_grouped (xs : List β) (t : Table (List α)) (name : String) :
    ((grouped key value xs t).get? name).getD []
      = (t.get? name).getD [] ++ (xs.filter fun x => key x = name).map value := by
  unfold grouped
  induction xs generalizing t with
  | nil => simp
  | cons x xs ih =>
    rw [List.foldl_cons, ih, getD_get?_adjust]
    by_cases hx : key x = name
    · simp [hx]
    · simp [hx]

theorem ne_nil_of_mem_grouped (xs : List β) {t : Table (List α)} (h : ∀ e ∈ t, e.2 ≠ []) :
    ∀ e ∈ grouped key value xs t, e.2 ≠ [] := by
  refine List.foldlRecOn (motive := fun t : Table (List α) => ∀ e ∈ t, e.2 ≠ []) xs _ h
    fun t ht x _ e he => ?_
  rcases mem_put he with rfl | he
  · simp
  · exact ht e he

theorem perm_flatMap_adjust (join : String → α → γ) (t : Table (List α)) (name : String) (a : α) :
    ((t.adjust name [] fun values => values ++ [a]).flatMap fun e => e.2.map (join e.1)).Perm
      ((t.flatMap fun e => e.2.map (join e.1)) ++ [join name a]) := by
  unfold adjust
  induction t with
  | nil => exact List.Perm.refl _
  | cons e rest ih =>
    obtain ⟨n, values⟩ := e
    by_cases hn : n = name
    · -- the new member comes before those of the groups that follow
      simp only [put, get?, hn, ↓reduceIte, List.flatMap_cons, Option.getD_some, List.map_append,
        List.append_assoc]
      exact List.perm_append_comm.append_left _
    · simp only [put, get?, hn, ↓reduceIte, List.flatMap_cons, List.append_assoc]
      exact ih.append_left _

/-- Groups make up the members. -/
theorem perm_flatMap_grouped (join : String → α → γ) (xs : List β) (t : Table (List α)) :
    ((grouped key value xs t).flatMap fun e => e.2.map (join e.1)).Perm
      ((t.flatMap fun e => e.2.map (join e.1)) ++ xs.map fun x => join (key x) (value x)) := by
  unfold grouped
  induction xs generalizing t with
  | nil => simp
  | cons x xs ih =>
    rw [List.foldl_cons, List.map_cons]
    refine (ih _).trans ?_
    have hfirst := (perm_flatMap_adjust join t (key x) (value x)).append_right
      (xs.map fun x => join (key x) (value x))
    rwa [List.append_assoc, List.singleton_append] at hfirst

end Grouped

/-! ## Entries in which names come again -/

theorem ofEntries_append (entries more : List (String × α)) :
    ofEntries (entries ++ more) = (ofEntries entries).putAll more := by
  simp [ofEntries, putAll]

/-- The last entry under a name is the one that is read. -/
theorem get?_ofEntries (entries : List (String × α)) (name : String) :
    (ofEntries entries).get? name = get? entries.reverse name := by
  induction entries using List.reverseRecOn with
  | nil => rfl
  | append_singleton entries e ih =>
    obtain ⟨n, a⟩ := e
    have hput : ofEntries (entries ++ [(n, a)]) = (ofEntries entries).put n a :=
      ofEntries_append entries _
    rw [hput, List.reverse_concat, get?]
    split
    · rename_i hn
      cases hn
      exact get?_put_self _ _ a
    · rename_i hn
      exact (get?_put_of_ne _ a hn).trans ih

/-- A name has the place of its first entry. -/
theorem names_ofEntries (entries : List (String × α)) :
    (ofEntries entries).names = (names entries).eraseDups := by
  induction entries using List.reverseRecOn with
  | nil => rfl
  | append_singleton entries e ih =>
    have hput : ofEntries (entries ++ [e]) = (ofEntries entries).put e.1 e.2 :=
      ofEntries_append entries _
    have hnames : names (entries ++ [e]) = names entries ++ [e.1] := List.map_append
    rw [hput, names_put, hnames, eraseDups_concat, ih]
    simp only [List.mem_eraseDups]

theorem get?_reverse {t : Table α} (h : t.names.Nodup) (name : String) :
    get? t.reverse name = t.get? name := by
  rw [← get?_ofEntries, ofEntries_eq_self h]

/-- What is put in wins over what is there. -/
theorem get?_putAll {t u : Table α} (ht : t.names.Nodup) (hu : u.names.Nodup) (name : String) :
    (t.putAll u).get? name = (u.get? name).or (t.get? name) := by
  have hall : ofEntries (t ++ u) = t.putAll u := by rw [ofEntries_append, ofEntries_eq_self ht]
  rw [← hall, get?_ofEntries, List.reverse_append, get?_append, get?_reverse ht, get?_reverse hu]

theorem put_of_mem {t : Table α} (ht : t.names.Nodup) {name : String} (hmem : name ∈ t.names)
    (a : α) : t.put name a = t.map fun e => if e.1 = name then (name, a) else e := by
  induction t with
  | nil => cases hmem
  | cons e rest ih =>
    obtain ⟨n, b⟩ := e
    obtain ⟨hn, hrest⟩ := List.nodup_cons.mp ht
    rw [put, List.map_cons]
    by_cases hname : n = name
    · subst hname
      have hsame : ∀ e ∈ rest, (if e.1 = n then (n, a) else e) = e := by
        intro e he
        have hne : e.1 ≠ n := fun heq => hn (List.mem_map.mpr ⟨e, he, heq⟩)
        rw [if_neg hne]
      rw [if_pos rfl, if_pos rfl, List.map_congr_left hsame, List.map_id']
    · have hrestMem : name ∈ names rest :=
        (List.mem_cons.mp hmem).resolve_left (Ne.symm hname)
      rw [if_neg hname, if_neg hname, ih hrest hrestMem]

/-- Entries that are put into a table override those under their names where these stand, and the
others come last. -/
theorem putAll_eq_override {t u : Table α} (ht : t.names.Nodup) (hu : u.names.Nodup) :
    t.putAll u = (t.map fun e => (e.1, (u.get? e.1).getD e.2))
      ++ u.filter fun e => e.1 ∉ t.names := by
  induction u generalizing t with
  | nil => simp [putAll, get?]
  | cons e u ih =>
    obtain ⟨n, a⟩ := e
    obtain ⟨hn, hu⟩ := List.nodup_cons.mp hu
    have hnone : get? u n = none := get?_eq_none_iff.mpr hn
    show (t.put n a).putAll u = _
    rw [ih (nodup_names_put ht n a) hu]
    by_cases hmem : n ∈ t.names
    · have hnames : (t.put n a).names = t.names := by rw [names_put, if_pos hmem]
      rw [hnames, put_of_mem ht hmem, List.map_map, List.filter_cons_of_neg (by simpa using hmem)]
      congr 1
      refine List.map_congr_left fun e _ => ?_
      by_cases he : e.1 = n
      · simp [Function.comp, he, get?, hnone]
      · simp [Function.comp, he, get?, Ne.symm he]
    · have hold : ∀ e ∈ t, (e.1, (get? u e.1).getD e.2)
          = (e.1, (get? ((n, a) :: u) e.1).getD e.2) := by
        intro e he
        have hne : n ≠ e.1 := fun heq => hmem (List.mem_map.mpr ⟨e, he, heq.symm⟩)
        rw [get?, if_neg hne]
      have hnew : ∀ e ∈ u, decide (e.1 ∉ names (t ++ [(n, a)])) = decide (e.1 ∉ names t) := by
        intro e he
        rw [decide_eq_decide]
        have hne : e.1 ≠ n := fun heq => hn (List.mem_map.mpr ⟨e, he, heq⟩)
        rw [names, List.map_append, List.mem_append, List.map_singleton, List.mem_singleton,
          or_iff_left hne, names]
      rw [put_of_not_mem hmem, List.filter_congr hnew, List.map_append, List.map_congr_left hold,
        List.filter_cons_of_pos (by simpa using hmem), List.append_assoc]
      simp [hnone]

/-! ## Entries whose values are taken over -/

section MapSome

variable {β : Type}

/-- The entries with a new value, as far as there is one. -/
def mapSome (f : α → Option β) (t : Table α) : Table β :=
  t.filterMap fun e => (f e.2).map fun b => (e.1, b)

theorem mapSome_cons (f : α → Option β) (e : String × α) (t : Table α) :
    mapSome f (e :: t) = ((f e.2).map fun b => (e.1, b)).toList ++ mapSome f t := by
  rw [mapSome, List.filterMap_cons]
  cases f e.2 <;> rfl

theorem names_mapSome_sublist (f : α → Option β) (t : Table α) :
    (mapSome f t).names.Sublist t.names := by
  induction t with
  | nil => exact List.Sublist.refl _
  | cons e t ih =>
    rw [mapSome_cons]
    cases f e.2 with
    | none => exact ih.cons _
    | some b => exact ih.cons_cons _

theorem nodup_names_mapSome {t : Table α} (h : t.names.Nodup) (f : α → Option β) :
    (mapSome f t).names.Nodup :=
  h.sublist (names_mapSome_sublist f t)

theorem get?_mapSome {t : Table α} (h : t.names.Nodup) (f : α → Option β) (name : String) :
    (mapSome f t).get? name = (t.get? name).bind f := by
  induction t with
  | nil => rfl
  | cons e t ih =>
    obtain ⟨n, a⟩ := e
    obtain ⟨hn, ht⟩ := List.nodup_cons.mp h
    rw [mapSome_cons, get?_append, ih ht, get?]
    by_cases hname : n = name
    · have hnone : get? t name = none := get?_eq_none_iff.mpr (hname ▸ hn)
      rw [if_pos hname, hnone]
      cases hb : f a <;> simp [get?, hname, hb]
    · rw [if_neg hname]
      cases f a <;> simp [get?, hname]

theorem get?_filter {t : Table α} (h : t.names.Nodup) (p : α → Bool) (name : String) :
    get? (t.filter fun e => p e.2) name = (t.get? name).filter p := by
  have hsome : (t.filter fun e => p e.2) = mapSome (Option.guard fun a => p a = true) t := by
    rw [mapSome, ← List.filterMap_eq_filter]
    refine List.filterMap_congr fun e _ => ?_
    by_cases he : p e.2 = true <;> simp [Option.guard, he]
  rw [hsome, get?_mapSome h]
  cases t.get? name with
  | none => rfl
  | some a => by_cases ha : p a = true <;> simp [Option.guard, Option.filter_some, ha]

theorem mapSome_erase (f : α → Option β) (t : Table α) (name : String) :
    mapSome f (t.erase name) = (mapSome f t).erase name := by
  induction t with
  | nil => rfl
  | cons e t ih =>
    have hfilter : (mapSome f t).filter (·.1 != name) = mapSome f (t.filter (·.1 != name)) :=
      ih.symm
    rw [mapSome_cons, erase, erase, List.filter_append, hfilter]
    by_cases hname : e.1 = name
    · rw [List.filter_cons_of_neg (by simp [hname])]
      cases f e.2 <;> simp [hname]
    · rw [List.filter_cons_of_pos (by simp [hname]), mapSome_cons]
      cases f e.2 <;> simp [hname]

end MapSome

/-! ## Sorting -/

theorem perm_insertSorted (e : String × α) (t : Table α) : (insertSorted e t).Perm (e :: t) := by
  induction t with
  | nil => exact List.Perm.refl _
  | cons f t ih =>
    rw [insertSorted]
    split
    · exact List.Perm.refl _
    · exact (ih.cons f).trans (List.Perm.swap e f t)

/-- Sorting keeps the entries. -/
theorem perm_sorted (t : Table α) : t.sorted.Perm t := by
  induction t with
  | nil => exact List.Perm.refl _
  | cons e t ih => exact (perm_insertSorted e _).trans (ih.cons e)

/-- A new name is put where it keeps the ascending order. -/
theorem ascending_insertSorted {t : Table α} (h : t.names.Pairwise (· < ·)) {e : String × α}
    (hnew : e.1 ∉ t.names) : (insertSorted e t).names.Pairwise (· < ·) := by
  induction t with
  | nil => exact List.pairwise_singleton _ _
  | cons f t ih =>
    obtain ⟨hfirst, hrest⟩ := List.pairwise_cons.mp h
    obtain ⟨hne, hnew⟩ := not_or.mp fun hmem => hnew (List.mem_cons.mpr hmem)
    rw [insertSorted]
    split
    · rename_i hlt
      exact List.pairwise_cons.mpr
        ⟨List.forall_mem_cons.mpr ⟨hlt, fun n hn => String.lt_trans hlt (hfirst n hn)⟩, h⟩
    · rename_i hnlt
      have hlt : f.1 < e.1 :=
        Decidable.byContradiction fun hge => hne (String.le_antisymm hge hnlt)
      refine List.pairwise_cons.mpr ⟨fun n hn => ?_, ih hrest hnew⟩
      have hn := ((perm_insertSorted e t).map (·.1)).mem_iff.mp hn
      rcases List.mem_cons.mp hn with rfl | hn
      · exact hlt
      · exact hfirst n hn

/-- Distinct names are sorted in ascending order. -/
theorem ascending_sorted {t : Table α} (h : t.names.Nodup) :
    t.sorted.names.Pairwise (· < ·) := by
  induction t with
  | nil => exact List.Pairwise.nil
  | cons e t ih =>
    obtain ⟨hnew, hrest⟩ := List.nodup_cons.mp h
    refine ascending_insertSorted (ih hrest) fun hmem => hnew ?_
    exact ((perm_sorted t).map (·.1)).mem_iff.mp hmem

/-- Values that are replaced under their names are sorted as before. -/
theorem sorted_map {β : Type} (f : String × α → β) (t : Table α) :
    sorted (t.map fun e => (e.1, f e)) = t.sorted.map fun e => (e.1, f e) := by
  have hinsert : ∀ (e : String × α) (t : Table α),
      insertSorted (e.1, f e) (t.map fun e => (e.1, f e))
        = (insertSorted e t).map fun e => (e.1, f e) := by
    intro e t
    induction t with
    | nil => rfl
    | cons g t ih =>
      rw [List.map_cons, insertSorted, insertSorted]
      split
      · rfl
      · rw [ih, List.map_cons]
  induction t with
  | nil => rfl
  | cons e t ih =>
    show insertSorted _ (sorted _) = (insertSorted e (sorted t)).map _
    rw [ih, hinsert]

end RepoSurvey.Table
