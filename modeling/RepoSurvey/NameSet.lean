/-!
# Sets of names

A set of names is a list in strictly ascending order of code points.

* `NameSet.ofList`, `NameSet.union`;
* `mem_ofList`, `mem_union`: membership;
* `Ascending` and `ascending_ofList`: every set built here is in strictly ascending order, so a
  set has one list.
-/

namespace RepoSurvey

abbrev NameSet := List String

namespace NameSet

def insert (name : String) : NameSet → NameSet
  | [] => [name]
  | n :: rest => if name < n then name :: n :: rest else if name = n then n :: rest else n :: insert name rest

def ofList (names : List String) : NameSet := names.foldl (fun set n => insert n set) []

def union (a b : NameSet) : NameSet := b.foldl (fun set n => insert n set) (ofList a)

theorem mem_insert {name x : String} {set : NameSet} :
    x ∈ insert name set ↔ x = name ∨ x ∈ set := by
  induction set with
  | nil => simp [insert]
  | cons n rest ih =>
    simp only [insert]
    split
    · simp
    · split
      · rename_i h
        subst h
        simp
      · simp only [List.mem_cons, ih]
        constructor
        · rintro (h | h | h)
          · exact Or.inr (Or.inl h)
          · exact Or.inl h
          · exact Or.inr (Or.inr h)
        · rintro (h | h | h)
          · exact Or.inr (Or.inl h)
          · exact Or.inl h
          · exact Or.inr (Or.inr h)

theorem mem_foldl_insert {names : List String} {set : NameSet} {x : String} :
    x ∈ names.foldl (fun set n => insert n set) set ↔ x ∈ names ∨ x ∈ set := by
  induction names generalizing set with
  | nil => simp
  | cons n names ih =>
    simp only [List.foldl_cons, ih, mem_insert, List.mem_cons]
    constructor
    · rintro (h | h | h)
      · exact Or.inl (Or.inr h)
      · exact Or.inl (Or.inl h)
      · exact Or.inr h
    · rintro ((h | h) | h)
      · exact Or.inr (Or.inl h)
      · exact Or.inl h
      · exact Or.inr (Or.inr h)

theorem mem_ofList {names : List String} {x : String} : x ∈ ofList names ↔ x ∈ names := by
  simp [ofList, mem_foldl_insert]

theorem mem_union {a b : NameSet} {x : String} : x ∈ union a b ↔ x ∈ a ∨ x ∈ b := by
  simp only [union, mem_foldl_insert, mem_ofList]
  exact or_comm

def Ascending (set : NameSet) : Prop := set.Pairwise (· < ·)

theorem ascending_insert {name : String} {set : NameSet} (h : Ascending set) :
    Ascending (insert name set) := by
  induction set with
  | nil => simp [insert, Ascending]
  | cons n rest ih =>
    obtain ⟨head, tail⟩ := List.pairwise_cons.mp h
    simp only [insert]
    split
    · rename_i lt
      refine List.pairwise_cons.mpr ⟨?_, h⟩
      intro x hx
      rcases List.mem_cons.mp hx with rfl | hx
      · exact lt
      · exact String.lt_trans lt (head x hx)
    · rename_i notLt
      split
      · exact h
      · rename_i ne
        refine List.pairwise_cons.mpr ⟨?_, ih tail⟩
        intro x hx
        rcases mem_insert.mp hx with rfl | hx
        · rcases Classical.em (n < x) with lt | notGt
          · exact lt
          · exact absurd (String.le_antisymm notGt notLt) ne
        · exact head x hx

theorem ascending_ofList (names : List String) : Ascending (ofList names) := by
  have general : ∀ set : NameSet, Ascending set →
      Ascending (names.foldl (fun set n => insert n set) set) := by
    induction names with
    | nil => exact fun set h => h
    | cons n names ih => exact fun set h => ih _ (ascending_insert h)
  exact general [] List.Pairwise.nil

end NameSet

end RepoSurvey
