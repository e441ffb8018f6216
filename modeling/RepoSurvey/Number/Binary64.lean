/-!
# Binary floating-point numbers

The numbers of the 64-bit format, kept as sign, mantissa and binary exponent.

* `Binary64.ofDecimal` rounds a decimal number to the nearest of them, a half to the even
  mantissa;
* `Binary64.shortest` finds the fewest decimal digits that are read back as the same number, and
  of those the nearest;
* `Binary64.text` lays these digits out;
* `toInt?_eq_some` says when a number is whole.
-/

namespace RepoSurvey

/-- The decimal number `± coefficient · 10 ^ exponent`. -/
structure Decimal where
  negative : Bool
  coefficient : Nat
  exponent : Int
  deriving DecidableEq, Repr

/-- A number of the 64-bit format; a finite one is `± mantissa · 2 ^ exponent`. -/
inductive Binary64
  | nan
  | infinite (negative : Bool)
  | finite (negative : Bool) (mantissa : Nat) (exponent : Int)
  deriving DecidableEq, Repr

namespace Binary64

/-- The exponent of the subnormal numbers, the least there is. -/
def leastExponent : Int := -1074

/-- The greatest exponent of a finite number. -/
def mostExponent : Int := 971

/-- A positive quotient divided by `2 ^ exponent`, with the part below one unit as a ratio. -/
def scaled (num den : Nat) (exponent : Int) : Nat × Nat × Nat :=
  let (n, d) :=
    if 0 ≤ exponent then (num, den <<< exponent.toNat) else (num <<< (-exponent).toNat, den)
  (n / d, n % d, d)

/-- The least exponent at which the whole part of `num / den` fits into 53 bits. -/
def exponentFor (num den : Nat) : Int :=
  let guess : Int := (Nat.log2 num : Int) - (Nat.log2 den : Int) - 53
  let exponent := if (scaled num den guess).1 < Nat.pow 2 53 then guess else guess + 1
  max exponent leastExponent

/-- The number nearest to `num / den`; a half goes to the even mantissa. -/
def ofRatio (negative : Bool) (num den : Nat) : Binary64 :=
  if num = 0 then .finite negative 0 leastExponent
  else
    let exponent := exponentFor num den
    let (quotient, rest, divisor) := scaled num den exponent
    let up := 2 * rest > divisor || (2 * rest == divisor && quotient % 2 == 1)
    let mantissa := if up then quotient + 1 else quotient
    let (mantissa, exponent) :=
      if mantissa = Nat.pow 2 53 then (Nat.pow 2 52, exponent + 1) else (mantissa, exponent)
    if exponent > mostExponent then .infinite negative else .finite negative mantissa exponent

/-- The number nearest to a decimal number. Decimals far outside the range are not expanded. -/
def ofDecimal (x : Decimal) : Binary64 :=
  let magnitude : Int := (Nat.log2 x.coefficient : Int) * 30103 / 100000 + x.exponent
  if x.coefficient = 0 ∨ magnitude < -400 then .finite x.negative 0 leastExponent
  else if magnitude > 400 then .infinite x.negative
  else if 0 ≤ x.exponent then ofRatio x.negative (x.coefficient * Nat.pow 10 x.exponent.toNat) 1
  else ofRatio x.negative x.coefficient (Nat.pow 10 (-x.exponent).toNat)

/-- The absolute value of a finite number as a ratio. -/
def ratio (mantissa : Nat) (exponent : Int) : Nat × Nat :=
  if 0 ≤ exponent then (mantissa <<< exponent.toNat, 1) else (mantissa, 1 <<< (-exponent).toNat)

/-- The decimal exponent of the leading digit of a positive ratio. -/
def leadingExponent (num den : Nat) : Int :=
  let guess : Int := ((Nat.toDigits 10 num).length : Int) - ((Nat.toDigits 10 den).length : Int)
  let reached :=
    if 0 ≤ guess then den * Nat.pow 10 guess.toNat ≤ num
    else den ≤ num * Nat.pow 10 (-guess).toNat
  if reached then guess else guess - 1

/-- The decimals next to a ratio, below and above, on the grid of step `10 ^ exponent`, and
whether the ratio lies above their middle (a tie goes to the even one). -/
def neighbours (num den : Nat) (exponent : Int) : Nat × Nat × Bool :=
  let (n, d) :=
    if 0 ≤ exponent then (num, den * Nat.pow 10 exponent.toNat)
    else (num * Nat.pow 10 (-exponent).toNat, den)
  let below := n / d
  let rest := n % d
  (below, below + 1, 2 * rest > d || (2 * rest == d && below % 2 == 1))

/-- The decimal with `count` digits that is read back as `mantissa · 2 ^ exponent`, if any. -/
def withDigits? (mantissa : Nat) (exponent : Int) (count : Nat) : Option Decimal :=
  let (num, den) := ratio mantissa exponent
  let grid := leadingExponent num den - (count : Int) + 1
  let (below, above, nearerAbove) := neighbours num den grid
  let readsBack := fun (c : Nat) =>
    ofDecimal ⟨false, c, grid⟩ == Binary64.finite false mantissa exponent
  let (first, second) := if nearerAbove then (above, below) else (below, above)
  if readsBack first then some ⟨false, first, grid⟩
  else if readsBack second then some ⟨false, second, grid⟩
  else none

/-- The fewest digits that are read back as the same number. -/
def shortest (mantissa : Nat) (exponent : Int) : Decimal :=
  ((List.range' 1 17).findSome? (withDigits? mantissa exponent)).getD ⟨false, 0, 0⟩

/-- How the digits of a number are laid out. -/
structure Layout where
  /-- The exponents of the leading digit that are written without an exponent. -/
  leastPositional : Int
  mostPositional : Int
  exponentMark : Char
  exponentWidth : Nat

/-- Numbers from one ten-thousandth to below `10 ^ 16` are written out, with at least one digit
after the point; the others have a signed exponent of at least two digits. -/
def layout : Layout := ⟨-4, 15, 'e', 2⟩

/-- Digits without the zeros at the end. -/
def dropZeros (digits : List Char) : List Char :=
  (digits.reverse.dropWhile (· == '0')).reverse

/-- The exponent as it is written after the mark. -/
def exponentText (style : Layout) (exponent : Int) : List Char :=
  let digits := Nat.toDigits 10 exponent.natAbs
  (if exponent < 0 then '-' else '+')
    :: (List.replicate (style.exponentWidth - digits.length) '0' ++ digits)

/-- A positive decimal number whose digits start at the power `lead` of ten. -/
def layOut (style : Layout) (digits : List Char) (lead : Int) : List Char :=
  let significant := dropZeros digits
  if style.leastPositional ≤ lead ∧ lead ≤ style.mostPositional then
    if lead < 0 then
      '0' :: '.' :: (List.replicate ((-lead).toNat - 1) '0' ++ significant)
    else
      let whole := lead.toNat + 1
      let padded := significant ++ List.replicate (whole - significant.length) '0'
      let fraction := padded.drop whole
      padded.take whole ++ '.' :: (if fraction.isEmpty then ['0'] else fraction)
  else
    match significant with
    | [] => []
    | d :: rest =>
      d :: ((if rest.isEmpty then [] else '.' :: rest)
        ++ style.exponentMark :: exponentText style lead)

def text : Binary64 → List Char
  | .nan => "nan".toList
  | .infinite negative => (if negative then ['-'] else []) ++ "inf".toList
  | .finite negative mantissa exponent =>
    (if negative then ['-'] else []) ++
      if mantissa = 0 then "0.0".toList
      else
        let x := shortest mantissa exponent
        let digits := Nat.toDigits 10 x.coefficient
        layOut layout digits (x.exponent + (digits.length : Int) - 1)

/-- The value of a whole number. -/
def toInt? : Binary64 → Option Int
  | .nan => none
  | .infinite _ => none
  | .finite negative mantissa exponent =>
    let (num, den) := ratio mantissa exponent
    if num % den = 0 then
      some (if negative then -((num / den : Nat) : Int) else ((num / den : Nat) : Int))
    else none

def isFinite : Binary64 → Bool
  | .finite .. => true
  | _ => false

/-- At least zero, as minus zero is. -/
def atLeastZero : Binary64 → Bool
  | .nan => false
  | .infinite negative => !negative
  | .finite negative mantissa _ => !negative || mantissa == 0

def atMostOne : Binary64 → Bool
  | .nan => false
  | .infinite negative => negative
  | .finite negative mantissa exponent =>
    let (num, den) := ratio mantissa exponent
    negative || num ≤ den

/-- Between zero and one, both included. -/
def inUnitInterval (x : Binary64) : Bool := x.atLeastZero && x.atMostOne

/-- The number nearest to an integer. -/
def ofInt (n : Int) : Binary64 := ofDecimal ⟨n < 0, n.natAbs, 0⟩

/-- A finite number is whole exactly when its ratio divides evenly. -/
theorem toInt?_eq_some {negative : Bool} {mantissa : Nat} {exponent : Int} :
    (toInt? (.finite negative mantissa exponent)).isSome
      ↔ (ratio mantissa exponent).1 % (ratio mantissa exponent).2 = 0 := by
  simp only [toInt?]
  split <;> simp_all

end Binary64

end RepoSurvey
