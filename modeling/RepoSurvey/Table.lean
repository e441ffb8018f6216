/-!
# Tables in order of first insertion

A table is a list of named entries. Putting an entry under a name that is there already
replaces it where it stands; a new name comes last.

* `get?_put_self`, `get?_put_of_ne`, `get?_putAll_of_not_mem`: reading after writing;
* `get?_eq_some_of_mem`: reading an entry;
* `names_put`: the names after a write;
* `nodup_names_put`: writing keeps the names distinct;
* `ofEntries_eq_self`: entries with distinct names are a table as they are.
-/

namespace RepoSurvey

abbrev Table (α : Type) := List (String × α)

namespace Table

variable {α : Type}

def get? (t : Table α) (name : String) : Option α :=
  match t with
  | [] => none
  | (n, a) :: rest => if n = name then some a else get? rest name

def put (t : Table α) (name : String) (a : α) : Table α :=
  match t with
  | [] => [(name, a)]
  | (n, b) :: rest => if n = name then (n, a) :: rest else (n, b) :: put rest name a

def names (t : Table α) : List String := t.map (·.1)

def erase (t : Table α) (name : String) : Table α := t.filter (·.1 != name)

/-- Put every entry of `u`, in order. -/
def putAll (t u : Table α) : Table α := u.foldl (fun t (name, a) => t.put name a) t

/-- The table of a list of entries in which a name may occur more than once. -/
def ofEntries (entries : List (String × α)) : Table α := putAll [] entries

/-- Change the entry under a name, starting from `a` if there is none. -/
def adjust (t : Table α) (name : String) (a : α) (f : α → α) : Table α :=
  t.put name (f ((t.get? name).getD a))

/-- Put an entry before the first one whose name is greater. -/
def insertSorted (e : String × α) : Table α → Table α
  | [] => [e]
  | f :: rest => if e.1 < f.1 then e :: f :: rest else f :: insertSorted e rest

/-- The entries in ascending order of their names. -/
def sorted (t : Table α) : Table α := t.foldr insertSorted []

@[simp] theorem get?_put_self (t : Table α) (name : String) (a : α) :
    (t.put name a).get? name = some a := by
  induction t with
  | nil => simp [put, get?]
  | cons e rest ih =>
    obtain ⟨n, b⟩ := e
    by_cases h : n = name <;> simp [put, get?, h, ih]

theorem get?_put_of_ne (t : Table α) {name other : String} (a : α) (h : name ≠ other) :
    (t.put name a).get? other = t.get? other := by
  induction t with
  | nil => simp [put, get?, h]
  | cons e rest ih =>
    obtain ⟨n, b⟩ := e
    by_cases hn : n = name
    · subst hn
      simp [put, get?, h]
    · rw [put, if_neg hn, get?, get?, ih]

/-- Where names are distinct every entry is read. -/
theorem get?_eq_some_of_mem {t : Table α} (h : t.names.Nodup) {name : String} {a : α}
    (hmem : (name, a) ∈ t) : t.get? name = some a := by
  induction t with
  | nil => cases hmem
  | cons e rest ih =>
    obtain ⟨n, b⟩ := e
    obtain ⟨hn, hrest⟩ := List.nodup_cons.mp h
    rcases List.mem_cons.mp hmem with heq | hmem
    · cases heq
      rw [get?, if_pos rfl]
    · have hne : n ≠ name := by
        rintro rfl
        exact hn (List.mem_map.mpr ⟨_, hmem, rfl⟩)
      rw [get?, if_neg hne]
      exact ih hrest hmem

/-- What is put under other names is not read. -/
theorem get?_putAll_of_not_mem {u : Table α} {name : String} (h : name ∉ u.names) (t : Table α) :
    (t.putAll u).get? name = t.get? name := by
  unfold putAll
  induction u generalizing t with
  | nil => rfl
  | cons e u ih =>
    obtain ⟨hname, hu⟩ := not_or.mp fun hmem => h (List.mem_cons.mpr hmem)
    rw [List.foldl_cons, ih hu, get?_put_of_ne t e.2 (Ne.symm hname)]

theorem names_put (t : Table α) (name : String) (a : α) :
    (t.put name a).names = if name ∈ t.names then t.names else t.names ++ [name] := by
  induction t with
  | nil => simp [put, names]
  | cons e rest ih =>
    obtain ⟨n, b⟩ := e
    simp only [names] at ih
    by_cases hn : n = name
    · simp [put, names, hn]
    · have hn' : ¬ name = n := fun h => hn h.symm
      simp only [put, names, hn, ↓reduceIte, List.map_cons, ih, List.mem_cons, hn', false_or]
      by_cases hm : name ∈ List.map (fun e => e.1) rest <;> simp [hm]

theorem nodup_names_put {t : Table α} (h : t.names.Nodup) (name : String) (a : α) :
    (t.put name a).names.Nodup := by
  rw [names_put]
  split
  · exact h
  · rename_i hn
    refine List.nodup_append.mpr ⟨h, by simp, ?_⟩
    intro x hx y hy
    simp only [List.mem_singleton] at hy
    subst hy
    exact fun e => hn (e ▸ hx)

theorem put_of_not_mem {t : Table α} {name : String} (h : name ∉ t.names) (a : α) :
    t.put name a = t ++ [(name, a)] := by
  induction t with
  | nil => rfl
  | cons e rest ih =>
    obtain ⟨n, b⟩ := e
    obtain ⟨hn, hrest⟩ := not_or.mp fun hmem => h (List.mem_cons.mpr hmem)
    rw [put, if_neg (Ne.symm hn), ih hrest, List.cons_append]

/-- Entries whose names are distinct and new come last. -/
theorem putAll_of_nodup {t u : Table α} (h : (t ++ u).names.Nodup) : t.putAll u = t ++ u := by
  induction u generalizing t with
  | nil => rw [List.append_nil]; rfl
  | cons e u ih =>
    have hnew : e.1 ∉ t.names := fun hmem => by
      rw [names, List.map_append, List.nodup_append] at h
      exact h.2.2 _ hmem _ List.mem_cons_self rfl
    have hsplit : t ++ e :: u = t ++ [e] ++ u := by simp
    rw [hsplit] at h ⊢
    exact (congrArg (·.putAll u) (put_of_not_mem hnew e.2)).trans (ih h)

theorem ofEntries_eq_self {entries : Table α} (h : entries.names.Nodup) :
    ofEntries entries = entries :=
  putAll_of_nodup h

theorem nodup_names_putAll {t : Table α} (h : t.names.Nodup) (u : List (String × α)) :
    (putAll t u).names.Nodup := by
  unfold putAll
  induction u generalizing t with
  | nil => exact h
  | cons e u ih => exact ih (nodup_names_put h e.1 e.2)

end Table

end RepoSurvey
