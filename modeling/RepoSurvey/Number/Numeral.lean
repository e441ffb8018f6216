import RepoSurvey.Number.Binary64

/-!
# Numbers as they are given

A number is given as a whole number or as a binary floating-point number, and is shown in the
same way.
-/

namespace RepoSurvey

inductive Numeral
  | whole (n : Int)
  | real (x : Binary64)
  deriving DecidableEq, Repr

namespace Numeral

def text : Numeral → String
  | .whole n => toString n
  | .real x => String.ofList x.text

def toBinary64 : Numeral → Binary64
  | .whole n => .ofInt n
  | .real x => x

def inUnitInterval : Numeral → Bool
  | .whole n => 0 ≤ n && n ≤ 1
  | .real x => x.inUnitInterval

/-- The number `coefficient · 10 ^ -places`. -/
def decimal (coefficient places : Nat) : Numeral :=
  .real (.ofDecimal ⟨false, coefficient, -(places : Int)⟩)

end Numeral

end RepoSurvey
