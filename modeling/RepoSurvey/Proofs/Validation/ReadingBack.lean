import RepoSurvey.Proofs.Validation.Checked

/-!
# Values that are read back

What a check accepts may be written in many ways. A way to write it down again is read back if the
check accepts it and gives the same value.

* `FieldName.value?`: what a field holds, whichever of its two names it goes by;
* `FieldName.accepted?_required`, `FieldName.accepted?_orElse`: what is accepted for a field depends
  on nothing else;
* `Checked.ReadsBack`: what is accepted is accepted again when it is written;
* `Checked.ReadsBack.listOf`, `Checked.ReadsBack.tableOf` and so on: for the checks of values, and
  `FieldName.required_of_readsBack`, `FieldName.orElse_of_readsBack`,
  `FieldName.orNull_of_readsBack` for those of fields.
-/

namespace RepoSurvey

variable {α : Type}

/-- The value, if there is one. -/
def Checked.accepted? : Checked α → Option α
  | .valid a => some a
  | .invalid _ => none

@[simp] theorem Checked.accepted?_map {β : Type} (f : α → β) (x : Checked α) :
    (f <$> x).accepted? = x.accepted?.map f := by
  cases x <;> rfl

@[simp] theorem Checked.accepted?_seq {β : Type} (f : Checked (α → β)) (x : Checked α) :
    (f <*> x).accepted? = f.accepted?.bind fun g => x.accepted?.map g := by
  cases f <;> cases x <;> rfl

@[simp] theorem Checked.accepted?_andThen {β : Type} (x : Checked α) (f : α → Checked β) :
    (x.andThen f).accepted? = x.accepted?.bind fun a => (f a).accepted? := by
  cases x <;> rfl

@[simp] theorem Checked.accepted?_under (key : Key) (x : Checked α) :
    (x.under key).accepted? = x.accepted? := by
  cases x <;> rfl

namespace FieldName

variable {f : FieldName} {members members' : Table Json} {check : Json → Checked α}
  {default a : α}

/-- What is given under the written name, or else under the plain one. -/
def value? (f : FieldName) (members : Table Json) : Option Json :=
  (members.get? f.written).or (members.get? f.plain)

theorem find?_map_snd (f : FieldName) (members : Table Json) :
    (f.find? members).map Prod.snd = f.value? members := by
  rw [find?, value?]
  cases members.get? f.written with
  | some j => rfl
  | none => cases members.get? f.plain <;> rfl

theorem required_eq_valid_iff : f.required check members = .valid a
    ↔ ∃ j, f.value? members = some j ∧ check j = .valid a := by
  rw [required, ← find?_map_snd]
  cases f.find? members with
  | none => simp
  | some e => simp [Checked.under_eq_valid_iff]

theorem orElse_eq_valid_iff : f.orElse default check members = .valid a
    ↔ (f.value? members = none ∧ a = default)
      ∨ ∃ j, f.value? members = some j ∧ check j = .valid a := by
  rw [orElse, ← find?_map_snd]
  cases f.find? members with
  | none => simp [eq_comm]
  | some e => simp [Checked.under_eq_valid_iff]

@[simp] theorem accepted?_required : (f.required check members).accepted?
    = (f.value? members).bind fun j => (check j).accepted? := by
  rw [required, ← find?_map_snd]
  cases f.find? members with
  | none => rfl
  | some e => exact Checked.accepted?_under _ _

@[simp] theorem accepted?_orElse : (f.orElse default check members).accepted?
    = (f.value? members).elim (some default) fun j => (check j).accepted? := by
  rw [orElse, ← find?_map_snd]
  cases f.find? members with
  | none => rfl
  | some e => exact Checked.accepted?_under _ _

end FieldName

namespace Checked

/-- What is accepted is accepted again when it is written, and gives the same value. -/
def ReadsBack (check : Json → Checked α) (write : α → Json) : Prop :=
  ∀ j a, check j = .valid a → check (write a) = .valid a

theorem readsBack_text : ReadsBack text .str := fun _ _ _ => rfl

theorem readsBack_integer : ReadsBack integer .int := fun _ _ _ => rfl

theorem readsBack_boolean : ReadsBack boolean .bool := fun _ _ _ => rfl

theorem nonEmptyText_eq_valid_iff {s t : String} :
    nonEmptyText (.str s) = .valid t ↔ t = s ∧ s ≠ "" := by
  rw [nonEmptyText, text, andThen]
  split
  · rename_i h
    simp [fail, String.isEmpty_iff.mp h]
  · rename_i h
    have hne : s ≠ "" := fun heq => h (String.isEmpty_iff.mpr heq)
    simp [hne, eq_comm]

theorem ne_empty_of_nonEmptyText {j : Json} {s : String} (h : nonEmptyText j = .valid s) :
    s ≠ "" := by
  obtain ⟨t, ht, hs⟩ := andThen_eq_valid_iff.mp h
  have hsame : nonEmptyText (.str t) = .valid s := hs
  obtain ⟨rfl, hne⟩ := nonEmptyText_eq_valid_iff.mp hsame
  exact hne

theorem readsBack_nonEmptyText : ReadsBack nonEmptyText .str := fun _ _ h =>
  nonEmptyText_eq_valid_iff.mpr ⟨rfl, ne_empty_of_nonEmptyText h⟩

theorem readsBack_integerFrom (least : Int) : ReadsBack (integerFrom least) .int := by
  intro j n h
  obtain ⟨m, _, hn⟩ := andThen_eq_valid_iff.mp h
  split at hn
  · cases hn
  · rename_i hleast
    cases hn
    rw [integerFrom, integer, andThen, if_neg hleast]

theorem inUnitInterval_of_unitReal {j : Json} {x : Binary64} (h : unitReal j = .valid x) :
    x.inUnitInterval = true := by
  obtain ⟨y, _, hx⟩ := andThen_eq_valid_iff.mp h
  split at hx
  · cases hx
  · rename_i hmost
    split at hx
    · cases hx
    · rename_i hleast
      cases hx
      simp [Binary64.inUnitInterval] at hmost hleast ⊢
      exact ⟨hleast, hmost⟩

theorem readsBack_unitReal : ReadsBack unitReal .float := by
  intro j x h
  obtain ⟨hleast, hmost⟩ := (Bool.and_eq_true _ _).mp (inUnitInterval_of_unitReal h)
  rw [unitReal, real, andThen, hleast, hmost]
  rfl

theorem readsBack_anyTable : ReadsBack anyTable .obj := fun _ _ _ => rfl

theorem readsBack_oneOf {members : List String} {find? : String → Option α} {write : α → String}
    (hfind : ∀ a, find? (write a) = some a) :
    ReadsBack (oneOf members find?) fun a => .str (write a) := by
  intro j a _
  rw [oneOf, Json.str?, Option.bind_some, hfind]

theorem exists_of_mem_itemsFrom {check : Json → Checked α} {index : Nat} {items : List Json}
    {as : List α} (h : itemsFrom check index items = .valid as) {a : α} (ha : a ∈ as) :
    ∃ j, check j = .valid a := by
  induction items generalizing index as with
  | nil =>
    cases h
    cases ha
  | cons j items ih =>
    obtain ⟨_, rest, hfirst, hrest, rfl⟩ := seq_eq_valid_iff.mp h
    obtain ⟨b, hb, rfl⟩ := map_eq_valid_iff.mp hfirst
    rcases List.mem_cons.mp ha with rfl | ha
    · exact ⟨j, under_eq_valid_iff.mp hb⟩
    · exact ih hrest ha

theorem itemsFrom_map {check : Json → Checked α} {write : α → Json} {as : List α}
    (h : ∀ a ∈ as, check (write a) = .valid a) (index : Nat) :
    itemsFrom check index (as.map write) = .valid as := by
  induction as generalizing index with
  | nil => rfl
  | cons a as ih =>
    obtain ⟨ha, has⟩ := List.forall_mem_cons.mp h
    rw [List.map_cons, itemsFrom, ih has, ha]
    rfl

theorem ReadsBack.listOf {check : Json → Checked α} {write : α → Json}
    (h : ReadsBack check write) : ReadsBack (listOf check) fun as => .arr (as.map write) := by
  intro j as hj
  cases j with
  | arr items =>
    refine itemsFrom_map (fun a ha => ?_) 0
    obtain ⟨j, hj⟩ := exists_of_mem_itemsFrom hj ha
    exact h j a hj
  | _ => cases hj

theorem exists_of_mem_entries {check : Json → Checked α} {members : List (String × Json)}
    {t : Table α} (h : entries check members = .valid t) {e : String × α} (he : e ∈ t) :
    ∃ j, check j = .valid e.2 := by
  induction members generalizing t with
  | nil =>
    cases h
    cases he
  | cons member members ih =>
    obtain ⟨_, rest, hfirst, hrest, rfl⟩ := seq_eq_valid_iff.mp h
    obtain ⟨b, hb, rfl⟩ := map_eq_valid_iff.mp hfirst
    rcases List.mem_cons.mp he with rfl | he
    · exact ⟨member.2, under_eq_valid_iff.mp hb⟩
    · exact ih hrest he

theorem entries_map {check : Json → Checked α} {write : α → Json} {t : Table α}
    (h : ∀ e ∈ t, check (write e.2) = .valid e.2) :
    entries check (t.map fun (name, a) => (name, write a)) = .valid t := by
  induction t with
  | nil => rfl
  | cons e t ih =>
    obtain ⟨he, ht⟩ := List.forall_mem_cons.mp h
    rw [List.map_cons, entries, ih ht, he]
    rfl

theorem ReadsBack.tableOf {check : Json → Checked α} {write : α → Json}
    (h : ReadsBack check write) :
    ReadsBack (tableOf check) fun t => .obj (t.map fun (name, a) => (name, write a)) := by
  intro j t hj
  cases j with
  | obj members =>
    refine entries_map fun e he => ?_
    obtain ⟨j, hj⟩ := exists_of_mem_entries hj he
    exact h j e.2 hj
  | _ => cases hj

end Checked

namespace FieldName

variable {f : FieldName} {members members' : Table Json} {check : Json → Checked α}
  {write : α → Json} {default a : α}

theorem required_of_readsBack (hcheck : Checked.ReadsBack check write)
    (h : f.required check members = .valid a) (hwritten : f.value? members' = some (write a)) :
    f.required check members' = .valid a := by
  obtain ⟨j, _, hj⟩ := required_eq_valid_iff.mp h
  exact required_eq_valid_iff.mpr ⟨write a, hwritten, hcheck j a hj⟩

/-- A default that is written is read back as any value is. -/
theorem orElse_of_readsBack (hcheck : Checked.ReadsBack check write)
    (hdefault : check (write default) = .valid default)
    (h : f.orElse default check members = .valid a)
    (hwritten : f.value? members' = some (write a)) :
    f.orElse default check members' = .valid a := by
  refine orElse_eq_valid_iff.mpr (Or.inr ⟨write a, hwritten, ?_⟩)
  rcases orElse_eq_valid_iff.mp h with ⟨_, rfl⟩ | ⟨j, _, hj⟩
  · exact hdefault
  · exact hcheck j a hj

/-- A field that may be empty is left out if it is, and read back if it is not. -/
theorem orNull_of_readsBack (hcheck : Checked.ReadsBack check write)
    (hnull : ∀ a, write a ≠ .null) {o : Option α}
    (h : f.orElse none (Checked.orNull check) members = .valid o)
    (hwritten : f.value? members' = o.map write) :
    f.orElse none (Checked.orNull check) members' = .valid o := by
  refine orElse_eq_valid_iff.mpr ?_
  cases o with
  | none => exact Or.inl ⟨hwritten, rfl⟩
  | some a =>
    have hgiven : ∀ j, Checked.orNull check j = .valid (some a) → check j = .valid a := by
      intro j hj
      cases j with
      | null => cases hj
      | _ =>
        obtain ⟨b, hb, heq⟩ := Checked.map_eq_valid_iff.mp hj
        rwa [← Option.some.inj heq]
    rcases orElse_eq_valid_iff.mp h with ⟨_, heq⟩ | ⟨j, _, hj⟩
    · cases heq
    · refine Or.inr ⟨write a, hwritten, ?_⟩
      have hback := hcheck j a (hgiven j hj)
      have hsome : Checked.orNull check (write a) = (check (write a)).map some := by
        cases hwrite : write a with
        | null => exact absurd hwrite (hnull a)
        | _ => rfl
      rw [hsome, hback]
      rfl

end FieldName

end RepoSurvey
