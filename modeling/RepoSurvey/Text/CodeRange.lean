/-!
# Sets of characters given by ranges of code points

* `CodeRange`: an inclusive range of code points;
* `CodeRange.anyContains`: membership in a list of ranges;
* `mem_of_anyContains`: what membership says.
-/

namespace RepoSurvey

/-- The code points from `first` to `last`, both included. -/
structure CodeRange where
  first : Nat
  last : Nat
  deriving DecidableEq, Repr

namespace CodeRange

def contains (r : CodeRange) (c : Char) : Bool :=
  r.first ≤ c.toNat && c.toNat ≤ r.last

def anyContains (rs : List CodeRange) (c : Char) : Bool :=
  rs.any (·.contains c)

/-- A table written as pairs of bounds. -/
def table (bounds : List (Nat × Nat)) : List CodeRange :=
  bounds.map fun (a, b) => ⟨a, b⟩

theorem mem_of_anyContains {rs : List CodeRange} {c : Char} :
    anyContains rs c = true ↔ ∃ r ∈ rs, r.first ≤ c.toNat ∧ c.toNat ≤ r.last := by
  simp [anyContains, contains]

end CodeRange

end RepoSurvey
