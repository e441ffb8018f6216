import RepoSurvey.Proofs.Table
import RepoSurvey.Proofs.Traversal
import RepoSurvey.Toml.Parser

/-!
# The names of a table differ

* `Toml.Distinct`: in every table of a value no name occurs twice;
* `distinct_put`, `distinct_alterAt?`: writing into tables keeps it;
* `readsDistinct`: it holds of every value that is read;
* `distinct_of_read`: it holds of what a text describes.
-/

namespace RepoSurvey.Toml

/-- In every table of a value no name occurs twice. -/
inductive Distinct : Toml → Prop
  | scalar {v : Toml} : v.isContainer = false → Distinct v
  | array {items : List Toml} : (∀ v ∈ items, Distinct v) → Distinct (.array items)
  | table {entries : Table Toml} : entries.names.Nodup → (∀ e ∈ entries, Distinct e.2) →
      Distinct (.table entries)

theorem Distinct.items {items : List Toml} (h : Distinct (.array items)) :
    ∀ v ∈ items, Distinct v := by
  cases h with
  | scalar h => cases h
  | array h => exact h

theorem Distinct.nodup_names {t : Table Toml} (h : Distinct (.table t)) : t.names.Nodup := by
  cases h with
  | scalar h => cases h
  | table h _ => exact h

theorem Distinct.entry {t : Table Toml} (h : Distinct (.table t)) :
    ∀ e ∈ t, Distinct e.2 := by
  cases h with
  | scalar h => cases h
  | table _ h => exact h

theorem Distinct.get? {t : Table Toml} (h : Distinct (.table t)) {name : String} {v : Toml}
    (hget : t.get? name = some v) : Distinct v :=
  h.entry _ (Table.mem_of_get? hget)

theorem distinct_nil : Distinct (.table []) := .table List.nodup_nil (by simp)

/-! ## Writing -/

theorem distinct_put {t : Table Toml} (h : Distinct (.table t)) {v : Toml} (hv : Distinct v)
    (name : String) : Distinct (.table (t.put name v)) := by
  refine .table (Table.nodup_names_put h.nodup_names name v) fun e he => ?_
  rcases Table.mem_put he with rfl | he
  · exact hv
  · exact h.entry e he

theorem distinct_putNew? {name : String} {v : Toml} (hv : Distinct v) {t u : Table Toml}
    (ht : Distinct (.table t)) (h : putNew? name v t = some u) : Distinct (.table u) := by
  rw [putNew?] at h
  split at h
  · cases h
  · cases h
    exact distinct_put ht hv name

theorem distinct_appendTable? {name : String} {t u : Table Toml} (ht : Distinct (.table t))
    (h : Document.appendTable? name t = some u) : Distinct (.table u) := by
  unfold Document.appendTable? at h
  split at h
  · cases h
    exact distinct_put ht (.array (by simpa using distinct_nil)) name
  · rename_i items hget
    cases h
    refine distinct_put ht (.array ?_) name
    exact List.forall_mem_append.mpr ⟨(ht.get? hget).items, by simpa using distinct_nil⟩
  · cases h

/-- A change that keeps names different does so at the end of a path too. -/
theorem distinct_alterAt? {throughArrays : Bool} {f : Table Toml → Option (Table Toml)}
    (hf : ∀ t u, Distinct (.table t) → f t = some u → Distinct (.table u)) {path : List String}
    {t u : Table Toml} (ht : Distinct (.table t)) (h : alterAt? throughArrays f path t = some u) :
    Distinct (.table u) := by
  induction path generalizing t u with
  | nil => exact hf t u ht h
  | cons name path ih =>
    unfold alterAt? at h
    split at h
    · obtain ⟨inner, hinner, rfl⟩ := Option.map_eq_some_iff.mp h
      exact distinct_put ht (ih distinct_nil hinner) name
    · rename_i old hget
      obtain ⟨inner, hinner, rfl⟩ := Option.map_eq_some_iff.mp h
      exact distinct_put ht (ih (ht.get? hget) hinner) name
    · rename_i items hget
      split at h
      · obtain ⟨⟨before, last⟩, hlast, h⟩ := Option.bind_eq_some_iff.mp h
        obtain ⟨inner, hinner, h⟩ := Option.bind_eq_some_iff.mp h
        cases h
        have hitems := (ht.get? hget).items
        unfold lastTable? at hlast
        split at hlast
        · rename_i entries hentries
          cases hlast
          have hentries := hitems _ (List.mem_of_getLast? hentries)
          refine distinct_put ht (.array (List.forall_mem_append.mpr ⟨?_, ?_⟩)) name
          · exact fun v hv => hitems v (List.dropLast_subset items hv)
          · exact List.forall_mem_singleton.mpr (ih hentries hinner)
        · cases hlast
      · cases h
    · cases h

/-! ## Reading -/

section Scalars

variable {text rest : List Char} {v : Toml}

theorem isContainer_of_readMoment? (h : readMoment? text = some (.ok (v, rest))) :
    v.isContainer = false := by
  unfold readMoment? at h
  split at h
  · dsimp only at h
    split at h
    · cases h
      rfl
    · cases h
  · obtain ⟨_, -, h⟩ := Option.map_eq_some_iff.mp h
    cases h
    rfl

theorem isContainer_of_readBased? (h : readBased? text = some (v, rest)) :
    v.isContainer = false := by
  unfold readBased? at h
  split at h
  · obtain ⟨_, -, h⟩ := Option.bind_eq_some_iff.mp h
    obtain ⟨_, -, h⟩ := Option.bind_eq_some_iff.mp h
    cases h
    rfl
  · cases h

theorem isContainer_of_readDecimal? (h : readDecimal? text = some (.ok (v, rest))) :
    v.isContainer = false := by
  unfold readDecimal? at h
  dsimp only at h
  obtain ⟨_, -, h⟩ := Option.bind_eq_some_iff.mp h
  split at h
  · split at h <;> cases h
    rfl
  · cases h
    rfl

theorem isContainer_of_readSpecial? (h : readSpecial? text = some (v, rest)) :
    v.isContainer = false := by
  obtain ⟨_, -, h⟩ := Option.map_eq_some_iff.mp h
  cases h
  rfl

theorem isContainer_of_readScalar (h : readScalar text = .ok (v, rest)) :
    v.isContainer = false := by
  unfold readScalar at h
  split at h
  · obtain ⟨_, -, h⟩ := map_eq_ok_iff.mp h
    cases h
    rfl
  · split at h
    · cases h
      rfl
    · split at h
      · cases h
        rfl
      · split at h
        · rename_i hmoment
          exact isContainer_of_readMoment? (h ▸ hmoment)
        · split at h
          · rename_i hbased
            cases h
            exact isContainer_of_readBased? hbased
          · split at h
            · rename_i hdecimal
              exact isContainer_of_readDecimal? (h ▸ hdecimal)
            · split at h
              · rename_i hspecial
                cases h
                exact isContainer_of_readSpecial? hspecial
              · cases h

end Scalars

/-- What the readers of values give with this fuel. -/
structure ReadsDistinct (fuel : Nat) : Prop where
  value : ∀ {room text rest v}, readValueFrom room fuel text = .ok (v, rest) → Distinct v
  items : ∀ {room text rest items}, readItems room fuel text = .ok (items, rest) →
    ∀ v ∈ items, Distinct v
  entries : ∀ {room read frozen text rest entries}, Distinct (.table read) →
    readEntries room fuel read frozen text = .ok (entries, rest) → Distinct (.table entries)

section Steps

variable {room fuel : Nat} {text rest : List Char}

theorem ReadsDistinct.readValueFrom (h : ReadsDistinct fuel) {v : Toml}
    (hread : readValueFrom room (fuel + 1) text = .ok (v, rest)) : Distinct v := by
  unfold Toml.readValueFrom at hread
  split at hread
  · split at hread
    · cases hread
    · split at hread <;> cases hread
      rename_i hitems
      exact .array (h.items hitems)
  · split at hread
    · cases hread
    · split at hread
      · cases hread
        exact distinct_nil
      · split at hread <;> cases hread
        rename_i hentries
        exact h.entries distinct_nil hentries
  · exact .scalar (isContainer_of_readScalar hread)

theorem ReadsDistinct.readItems (h : ReadsDistinct fuel) {items : List Toml}
    (hread : readItems room (fuel + 1) text = .ok (items, rest)) : ∀ v ∈ items, Distinct v := by
  unfold Toml.readItems at hread
  split at hread
  · cases hread
  · cases hread
    simp
  · split at hread
    · cases hread
    · rename_i hitem
      have hitem := h.value hitem
      split at hread
      · cases hread
      · cases hread
        exact List.forall_mem_singleton.mpr hitem
      · split at hread <;> cases hread
        rename_i hitems
        exact List.forall_mem_cons.mpr ⟨hitem, h.items hitems⟩
      · cases hread

theorem ReadsDistinct.readEntries (h : ReadsDistinct fuel) {read entries : Table Toml}
    {frozen : List (List String)} (hbefore : Distinct (.table read))
    (hread : readEntries room (fuel + 1) read frozen text = .ok (entries, rest)) :
    Distinct (.table entries) := by
  unfold Toml.readEntries at hread
  split at hread
  · cases hread
  · split at hread
    · cases hread
    · rename_i hvalue
      dsimp only at hread
      split at hread
      · cases hread
      · rename_i extended hextended
        have hextended : Distinct (.table extended) := by
          split at hextended
          · cases hextended
          · exact distinct_alterAt? (fun _ _ => distinct_putNew? (h.value hvalue)) hbefore hextended
        split at hread
        · cases hread
          exact hextended
        · exact h.entries hextended hread
        · cases hread
  · cases hread

end Steps

theorem readsDistinct (fuel : Nat) : ReadsDistinct fuel := by
  induction fuel with
  | zero =>
    refine ⟨fun h => ?_, fun h => ?_, fun _ h => ?_⟩
    · rw [readValueFrom] at h
      cases h
    · rw [readItems] at h
      cases h
    · rw [readEntries] at h
      cases h
  | succ fuel ih => exact ⟨ih.readValueFrom, ih.readItems, ih.readEntries⟩

/-! ## Documents -/

namespace Document

variable {d d' : Document} {path : List String}

theorem distinct_openTable? (hd : Distinct (.table d.tables)) (h : d.openTable? path = some d') :
    Distinct (.table d'.tables) := by
  unfold openTable? at h
  dsimp only at h
  split at h
  · cases h
  · obtain ⟨tables, htables, h⟩ := Option.bind_eq_some_iff.mp h
    cases h
    refine distinct_alterAt? (fun t u ht hu => ?_) hd htables
    cases hu
    exact ht

theorem distinct_openItem? (hd : Distinct (.table d.tables)) (h : d.openItem? path = some d') :
    Distinct (.table d'.tables) := by
  unfold openItem? at h
  dsimp only at h
  split at h
  · cases h
  · obtain ⟨tables, htables, h⟩ := Option.bind_eq_some_iff.mp h
    cases h
    exact distinct_alterAt? (fun _ _ => distinct_appendTable?) hd htables

theorem distinct_assign? (hd : Distinct (.table d.tables)) {v : Toml} (hv : Distinct v)
    (h : d.assign? path v = some d') : Distinct (.table d'.tables) := by
  unfold assign? at h
  dsimp only at h
  split at h
  · cases h
  · obtain ⟨tables, htables, h⟩ := Option.bind_eq_some_iff.mp h
    cases h
    exact distinct_alterAt? (fun _ _ => distinct_putNew? hv) hd htables

end Document

theorem orMalformed_eq_ok_iff {α : Type} {x : Option α} {a : α} :
    orMalformed x = .ok a ↔ x = some a := by
  cases x with
  | none => simp [orMalformed, malformed]
  | some b => simp [orMalformed]

theorem distinct_readStatement {room : Nat} {d d' : Document} {text rest : List Char}
    (hd : Distinct (.table d.tables)) (h : readStatement room d text = .ok (d', rest)) :
    Distinct (.table d'.tables) := by
  unfold readStatement at h
  split at h
  · obtain ⟨⟨path, _⟩, -, h⟩ := bind_eq_ok_iff.mp h
    obtain ⟨opened, hopened, h⟩ := bind_eq_ok_iff.mp h
    split at h <;> cases h
    exact Document.distinct_openItem? hd (orMalformed_eq_ok_iff.mp hopened)
  · obtain ⟨⟨path, _⟩, -, h⟩ := bind_eq_ok_iff.mp h
    obtain ⟨opened, hopened, h⟩ := bind_eq_ok_iff.mp h
    split at h <;> cases h
    exact Document.distinct_openTable? hd (orMalformed_eq_ok_iff.mp hopened)
  · obtain ⟨⟨path, _⟩, -, h⟩ := bind_eq_ok_iff.mp h
    dsimp only at h
    split at h
    · obtain ⟨⟨v, _⟩, hv, h⟩ := bind_eq_ok_iff.mp h
      obtain ⟨assigned, hassigned, h⟩ := bind_eq_ok_iff.mp h
      cases h
      exact Document.distinct_assign? hd ((readsDistinct _).value hv)
        (orMalformed_eq_ok_iff.mp hassigned)
    · cases h

/-- A line may hold a statement in front of a comment, and `k` goes on with what follows it. -/
theorem distinct_line {room : Nat} {d d' : Document} {c : Char} {text : List Char}
    {k : Document × List Char → Except ReadError Document} (hd : Distinct (.table d.tables))
    (hk : ∀ next rest, Distinct (.table next.tables) → k (next, rest) = .ok d' →
      Distinct (.table d'.tables))
    (h : (if c = '#' then pure (d, text) >>= k else readStatement room d text >>= k) = .ok d') :
    Distinct (.table d'.tables) := by
  split at h
  · exact hk d text hd h
  · obtain ⟨⟨next, rest⟩, hnext, h⟩ := bind_eq_ok_iff.mp h
    exact hk next rest (distinct_readStatement hd hnext) h

theorem distinct_readLines {room fuel : Nat} {d d' : Document} {text : List Char}
    (hd : Distinct (.table d.tables)) (h : readLines room fuel d text = .ok d') :
    Distinct (.table d'.tables) := by
  induction fuel generalizing d text with
  | zero => cases h
  | succ fuel ih =>
    unfold readLines at h
    split at h
    · cases h
      exact hd
    · exact ih hd h
    · refine distinct_line hd (fun next rest hnext h => ?_) h
      obtain ⟨_, -, h⟩ := bind_eq_ok_iff.mp h
      split at h
      · cases h
        exact hnext
      · exact ih hnext h
      · cases h

/-- In every table that a text describes, at any depth, no name occurs twice. -/
theorem distinct_of_read {room : Nat} {text : List Char} {t : Table Toml}
    (h : read room text = .ok t) : Distinct (.table t) := by
  obtain ⟨d, hd, rfl⟩ := map_eq_ok_iff.mp h
  exact distinct_readLines distinct_nil hd

end RepoSurvey.Toml
