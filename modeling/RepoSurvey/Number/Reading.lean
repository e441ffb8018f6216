import RepoSurvey.Number.Binary64
import RepoSurvey.Text.Blank
import RepoSurvey.Text.Digit

/-!
# Reading numbers from free text

* `digitGroups?`: digits with single low lines between them;
* `setting?` reads a whole number from a setting: blanks around it, a sign, digits of any script;
* `lenientInt` and `lenientReal?` read a number where a text stands for one in a record.
-/

namespace RepoSurvey.Number

/-- The digit values of a text of digits, single low lines between two digits allowed. -/
def digitGroups? (value? : Char → Option Nat) : List Char → Option (List Nat)
  | [] => none
  | [c] => (value? c).map fun d => [d]
  | c :: '_' :: rest => do
    let d ← value? c
    let ds ← digitGroups? value? rest
    return d :: ds
  | c :: rest => do
    let d ← value? c
    let ds ← digitGroups? value? rest
    return d :: ds

/-- A sign, if there is one, and what follows. -/
def splitSign : List Char → Bool × List Char
  | '-' :: rest => (true, rest)
  | '+' :: rest => (false, rest)
  | text => (false, text)

def signed (negative : Bool) (n : Nat) : Int := if negative then -n else n

/-- A whole number in a setting: blanks around it, a sign, digits of any script, at most `limit`
of them. -/
def setting? (limit : Nat) (text : List Char) : Option Int := do
  let (negative, digits) := splitSign (Text.trim text)
  let values ← digitGroups? Text.digitValue? digits
  if values.length > limit then none else some (signed negative (Text.ofDigits 10 values))

/-- White space proper, without the information separators. -/
def isSpace (c : Char) : Bool := Text.isBlank c && !(0x1C ≤ c.toNat && c.toNat ≤ 0x1F)

def trimSpaces (text : List Char) : List Char :=
  ((text.dropWhile isSpace).reverse.dropWhile isSpace).reverse

def asciiDigit? (c : Char) : Option Nat := if c.isDigit then some (c.toNat - 48) else none

/-- Drop the low lines of a text, each of which must stand alone between two other characters. -/
def dropLowLines? (text : List Char) : Option (List Char) :=
  let doubled := (text.zip (text.drop 1)).any fun (c, d) => c == '_' && d == '_'
  if doubled || text.head? == some '_' || text.getLast? == some '_' then none
  else some (text.filter (· != '_'))

/-! ## Whole numbers in records -/

/-- Why a text gives no whole number. -/
inductive IntegerFault
  | malformed
  | tooLong
  deriving DecidableEq, Repr

/-- The most characters of a whole number, its sign included. -/
def integerLimit : Nat := 4300

/-- Does the text start with a whole number that has too many characters? A zero at its start
would be a number of its own. -/
def startsTooLong (text : List Char) : Bool :=
  let digits := if text.head? = some '-' then text.drop 1 else text
  digits.head? != some '0'
    && (digits.takeWhile Char.isDigit).length + (text.length - digits.length) > integerLimit

/-- A whole number in its plain form: perhaps a minus sign, and digits of which the first is not
zero unless it is the only one. -/
def plainInt? (text : List Char) : Option Int :=
  let (negative, digits) := if text.head? = some '-' then (true, text.drop 1) else (false, text)
  if digits.isEmpty || !digits.all Char.isDigit || text.length > integerLimit
      || (digits.head? == some '0' && digits.length > 1) then none
  else some (signed negative (Text.asciiNat digits))

def isLeadingDigit (c : Char) : Bool := c.isDigit && c != '0'

/-- What follows zeros and low lines, the last of which is `last`. It has to start with another
digit or with a minus sign, or else `last` belongs to it. -/
def afterZeros? (last : Char) : List Char → Option (List Char)
  | [] => some [last]
  | c :: rest =>
    if c = '0' ∨ c = '_' then afterZeros? c rest
    else if c = '.' then some (last :: c :: rest)
    else if isLeadingDigit c || c == '-' then some (c :: rest)
    else none

/-- A text without the zeros that lead it. It has to start with a digit. -/
def dropLeadingZeros? : List Char → Option (List Char)
  | [] => none
  | c :: rest =>
    if c = '0' then afterZeros? c rest
    else if isLeadingDigit c then some (c :: rest)
    else none

/-- A text up to a point, if only zeros follow the point, at least one. -/
def dropZeroFraction (text : List Char) : List Char :=
  let fraction := (text.dropWhile (· != '.')).drop 1
  if !fraction.isEmpty && fraction.all (· == '0') then text.takeWhile (· != '.') else text

/-- A text in plain form, if it is a whole number: without blanks around it, a plus sign, zeros
in front, a fraction of zeros and low lines. A minus sign may also follow the zeros, if none
stands before them. -/
def cleanInt? (text : List Char) : Option (List Char) := do
  let (negative, unsigned) := splitSign (trimSpaces text)
  let digits ← dropLeadingZeros? unsigned
  let plain ← dropLowLines? (dropZeroFraction digits)
  return if negative then '-' :: plain else plain

/-- A whole number in a text. -/
def lenientInt (text : List Char) : Except IntegerFault Int :=
  if startsTooLong text then .error .tooLong
  else
    match (cleanInt? text).bind plainInt? with
    | some n => .ok n
    | none => .error .malformed

/-! ## Other numbers in records -/

/-- The words for numbers that are not finite, in lower case. -/
def specialReal? (negative : Bool) (word : List Char) : Option Binary64 :=
  let lower := String.ofList (word.map Char.toLower)
  if lower = "nan" then some .nan
  else if lower = "inf" ∨ lower = "infinity" then some (.infinite negative)
  else none

/-- The digits of a decimal number: those before and after the point, at least one in all. -/
def decimalPart? (text : List Char) : Option (List Nat × List Nat) :=
  let whole := text.takeWhile Char.isDigit
  match text.dropWhile Char.isDigit with
  | [] => if whole.isEmpty then none else some (whole.filterMap asciiDigit?, [])
  | '.' :: rest =>
    if rest.all Char.isDigit && !(whole.isEmpty && rest.isEmpty) then
      some (whole.filterMap asciiDigit?, rest.filterMap asciiDigit?)
    else none
  | _ => none

/-- A number: a sign, digits, a point, an exponent, or a word for what is not finite. -/
def plainReal? (text : List Char) : Option Binary64 := do
  let (negative, body) := splitSign text
  match specialReal? negative body with
  | some x => return x
  | none =>
    let isMark := fun (c : Char) => c == 'e' || c == 'E'
    let (whole, fraction) ← decimalPart? (body.takeWhile (!isMark ·))
    let power ←
      match body.dropWhile (!isMark ·) with
      | [] => some (0 : Int)
      | _ :: rest => do
        let (below, digits) := splitSign rest
        if digits.isEmpty || !digits.all Char.isDigit then none
        else some (signed below (Text.asciiNat digits))
    return .ofDecimal ⟨negative, Text.ofDigits 10 (whole ++ fraction), power - fraction.length⟩

/-- A number in a text, with blanks around it or with low lines in it. -/
def lenientReal? (text : List Char) : Option Binary64 :=
  match plainReal? (trimSpaces text) with
  | some x => some x
  | none => (dropLowLines? text).bind plainReal?

end RepoSurvey.Number
