import RepoSurvey.Json.Basic
import RepoSurvey.Text.Digit

/-!
# Reading JSON

The strict grammar, with two additions: `NaN`, `Infinity` and `-Infinity` are numbers, and of
members with one name the last counts (at the place of the first).

There may be a limit to the digits of a whole number, and one to how deeply arrays and objects
nest. A text that breaks one of them is not malformed; it has an error of its own. Only arrays and
objects count for the second: what the stack holds for a moment beside them, to make a number of
`NaN` or to report that a text is malformed, is left out.

An escape for half of a surrogate pair stands for no character. It is read as U+FFFD here, so two
strings that differ in such an escape only are read as the same.
-/

namespace RepoSurvey

/-- The most digits a decimal whole number may have. -/
def digitLimit : Nat := 4300

/-- What is entered when the stack is used up. -/
inductive Nesting
  | jsonArray
  | jsonObject
  | call
  deriving DecidableEq, Repr

def Nesting.text : Nesting → String
  | .jsonArray => " while decoding a JSON array from a unicode string"
  | .jsonObject => " while decoding a JSON object from a unicode string"
  | .call => ""

inductive ReadError
  | malformed
  | tooManyDigits (count : Nat)
  | tooDeep (task : Nesting)
  deriving DecidableEq, Repr

namespace Json

/-- The most digits of a whole number and the most arrays and objects inside each other, where
there is a limit to them. -/
structure Limits where
  digits : Option Nat := none
  nesting : Option Nat := none
  deriving DecidableEq, Repr

namespace Limits

def allowsDigits (limits : Limits) (count : Nat) : Bool := limits.digits.all (count ≤ ·)

/-- The limits inside an array or an object, if there may be one. -/
def enter? (limits : Limits) : Option Limits :=
  match limits.nesting with
  | none => some limits
  | some 0 => none
  | some (left + 1) => some { limits with nesting := some left }

end Limits

abbrev Reading (α : Type) := Except ReadError (α × List Char)

def isGap (c : Char) : Bool := c == ' ' || c == '\t' || c == '\n' || c == '\r'

def skipGaps (text : List Char) : List Char := text.dropWhile isGap

/-! ## Strings -/

/-- Where a reader stands inside a string: in plain text, after a backslash, inside the four
digits of an escape, or after an escape that is the first half of a surrogate pair. -/
inductive StringState
  | plain
  | escaped
  | unicode (left value : Nat) (high : Option Nat)
  | high (unit : Nat)
  | highEscaped (unit : Nat)

/-- The character of a one-letter escape. -/
def simpleEscape? : Char → Option Char
  | '"' => some '"'
  | '\\' => some '\\'
  | '/' => some '/'
  | 'b' => some '\x08'
  | 'f' => some '\x0c'
  | 'n' => some '\n'
  | 'r' => some '\r'
  | 't' => some '\t'
  | _ => none

def isHighUnit (unit : Nat) : Bool := 0xD800 ≤ unit && unit ≤ 0xDBFF

def isLowUnit (unit : Nat) : Bool := 0xDC00 ≤ unit && unit ≤ 0xDFFF

/-- What half a surrogate pair stands for when the other half is missing. -/
def loneUnit : Char := '\ufffd'

/-- A complete escape `unit`, after a first half `high` or alone: the characters read, last
first, and the next state. -/
def endEscape (unit : Nat) (high : Option Nat) : List Char × StringState :=
  match high with
  | some h =>
    if isLowUnit unit then
      ([Char.ofNat (0x10000 + (h - 0xD800) * 0x400 + (unit - 0xDC00))], .plain)
    else if isHighUnit unit then ([loneUnit], .high unit)
    else ([Char.ofNat unit, loneUnit], .plain)
  | none =>
    if isHighUnit unit then ([], .high unit)
    else if isLowUnit unit then ([loneUnit], .plain)
    else ([Char.ofNat unit], .plain)

/-- A character of plain text; `none` at the closing quote. -/
def plainStep (c : Char) (read : List Char) :
    Except ReadError (Option (List Char × StringState)) :=
  if c = '"' then .ok none
  else if c = '\\' then .ok (some (read, .escaped))
  else if c.toNat < 0x20 then .error .malformed
  else .ok (some (c :: read, .plain))

/-- A character after a backslash. -/
def escapeStep (c : Char) (read : List Char) (high : Option Nat) :
    Except ReadError (Option (List Char × StringState)) :=
  if c = 'u' then .ok (some (read, .unicode 4 0 high))
  else
    match simpleEscape? c with
    | none => .error .malformed
    | some e => .ok (some (e :: (if high.isSome then loneUnit :: read else read), .plain))

def stringStep (c : Char) (read : List Char) :
    StringState → Except ReadError (Option (List Char × StringState))
  | .plain => plainStep c read
  | .escaped => escapeStep c read none
  | .unicode left value high =>
    match Text.hexValue? c with
    | none => .error .malformed
    | some d =>
      let value := value * 16 + d
      if left ≤ 1 then
        let (more, next) := endEscape value high
        .ok (some (more ++ read, next))
      else .ok (some (read, .unicode (left - 1) value high))
  | .high unit =>
    if c = '\\' then .ok (some (read, .highEscaped unit)) else plainStep c (loneUnit :: read)
  | .highEscaped unit => escapeStep c read (some unit)

/-- The rest of a string after its opening quote; `read` holds what came before, last first. -/
def readChars (state : StringState) (read : List Char) : List Char → Reading String
  | [] => .error .malformed
  | c :: text =>
    match stringStep c read state with
    | .error e => .error e
    | .ok none => .ok (String.ofList read.reverse, text)
    | .ok (some (read, state)) => readChars state read text

def readString (text : List Char) : Reading String := readChars .plain [] text

/-! ## Numbers -/

/-- The whole part of a number: a zero, or digits that do not start with one. -/
def wholePart (text : List Char) : Option (List Char × List Char) :=
  match text with
  | '0' :: rest => some (['0'], rest)
  | c :: _ =>
    if c.isDigit then some (text.takeWhile Char.isDigit, text.dropWhile Char.isDigit) else none
  | [] => none

/-- The digits after a point, if there is at least one. -/
def fractionPart (text : List Char) : Option (List Char × List Char) :=
  match text with
  | '.' :: rest =>
    let digits := rest.takeWhile Char.isDigit
    if digits.isEmpty then none else some (digits, rest.dropWhile Char.isDigit)
  | _ => none

/-- Is there a minus sign? The rest starts behind the sign, which need not be there. -/
def signPart : List Char → Bool × List Char
  | '-' :: rest => (true, rest)
  | '+' :: rest => (false, rest)
  | text => (false, text)

/-- The power of ten after an exponent mark, if there is at least one digit. -/
def exponentPart (text : List Char) : Option (Int × List Char) :=
  match text with
  | c :: rest =>
    if c = 'e' ∨ c = 'E' then
      let (negative, rest) := signPart rest
      let digits := rest.takeWhile Char.isDigit
      if digits.isEmpty then none
      else
        let n : Int := Text.asciiNat digits
        some (if negative then -n else n, rest.dropWhile Char.isDigit)
    else none
  | [] => none

/-- A number after its sign. -/
def readUnsigned (limits : Limits) (negative : Bool) (text : List Char) : Reading Json :=
  match wholePart text with
  | none => .error .malformed
  | some (whole, rest) =>
    let fraction := fractionPart rest
    let (digits, afterFraction) := fraction.getD ([], rest)
    let exponent := exponentPart afterFraction
    if fraction.isNone && exponent.isNone then
      if !limits.allowsDigits whole.length then .error (.tooManyDigits whole.length)
      else
        let n : Int := Text.asciiNat whole
        .ok (.int (if negative then -n else n), rest)
    else
      let (power, rest) := exponent.getD (0, afterFraction)
      .ok (.float (Binary64.ofDecimal
        ⟨negative, Text.asciiNat (whole ++ digits), power - digits.length⟩), rest)

def readNumber (limits : Limits) (text : List Char) : Reading Json :=
  match text with
  | '-' :: rest => readUnsigned limits true rest
  | _ => readUnsigned limits false text

/-- The words that stand for a value. -/
def words : List (List Char × Json) :=
  [("null".toList, .null), ("true".toList, .bool true), ("false".toList, .bool false),
   ("NaN".toList, .float .nan), ("Infinity".toList, .float (.infinite false)),
   ("-Infinity".toList, .float (.infinite true))]

/-- A word or a number. -/
def readScalar (limits : Limits) (text : List Char) : Reading Json :=
  match words.find? fun (word, _) => word.isPrefixOf text with
  | some (word, value) => .ok (value, text.drop word.length)
  | none => readNumber limits text

/-! ## Values -/

mutual

/-- A value. Every step of the reader takes a character, so `fuel` need not exceed the length
of the text by more than one. -/
def readValue (limits : Limits) : Nat → List Char → Reading Json
  | 0, _ => .error .malformed
  | fuel + 1, text =>
    match text with
    | '"' :: rest =>
      match readString rest with
      | .error e => .error e
      | .ok (s, rest) => .ok (.str s, rest)
    | '[' :: rest =>
      match limits.enter? with
      | none => .error (.tooDeep .jsonArray)
      | some inner =>
        match skipGaps rest with
        | ']' :: rest => .ok (.arr [], rest)
        | rest =>
          match readItems inner fuel rest with
          | .error e => .error e
          | .ok (items, rest) => .ok (.arr items, rest)
    | '{' :: rest =>
      match limits.enter? with
      | none => .error (.tooDeep .jsonObject)
      | some inner =>
        match skipGaps rest with
        | '}' :: rest => .ok (.obj [], rest)
        | rest =>
          match readMembers inner fuel rest with
          | .error e => .error e
          | .ok (members, rest) => .ok (.obj (Table.ofEntries members), rest)
    | _ => readScalar limits text

/-- One or more items up to the closing bracket. -/
def readItems (limits : Limits) : Nat → List Char → Reading (List Json)
  | 0, _ => .error .malformed
  | fuel + 1, text =>
    match readValue limits fuel text with
    | .error e => .error e
    | .ok (item, rest) =>
      match skipGaps rest with
      | ']' :: rest => .ok ([item], rest)
      | ',' :: rest =>
        match readItems limits fuel (skipGaps rest) with
        | .error e => .error e
        | .ok (items, rest) => .ok (item :: items, rest)
      | _ => .error .malformed

/-- One or more members up to the closing brace. -/
def readMembers (limits : Limits) : Nat → List Char → Reading (List (String × Json))
  | 0, _ => .error .malformed
  | fuel + 1, text =>
    match text with
    | '"' :: rest =>
      match readString rest with
      | .error e => .error e
      | .ok (name, rest) =>
        match skipGaps rest with
        | ':' :: rest =>
          match readValue limits fuel (skipGaps rest) with
          | .error e => .error e
          | .ok (value, rest) =>
            match skipGaps rest with
            | '}' :: rest => .ok ([(name, value)], rest)
            | ',' :: rest =>
              match readMembers limits fuel (skipGaps rest) with
              | .error e => .error e
              | .ok (members, rest) => .ok ((name, value) :: members, rest)
            | _ => .error .malformed
        | _ => .error .malformed
    | _ => .error .malformed

end

/-- The value a text writes, with nothing but white space around it. -/
def readWithin (limits : Limits) (text : List Char) : Except ReadError Json :=
  match readValue limits (text.length + 1) (skipGaps text) with
  | .error e => .error e
  | .ok (value, rest) => if (skipGaps rest).isEmpty then .ok value else .error .malformed

/-- The value a text writes that keeps to `digitLimit` and has at most `nesting` arrays and objects
inside each other. -/
def read (nesting : Nat) (text : List Char) : Except ReadError Json :=
  readWithin ⟨some digitLimit, some nesting⟩ text

end Json

end RepoSurvey
