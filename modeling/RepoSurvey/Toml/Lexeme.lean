import RepoSurvey.Json.Parser
import RepoSurvey.Number.Reading
import RepoSurvey.Toml.Basic

/-!
# Lexemes of TOML

Strings, keys, comments, numbers and moments in time. Each reader takes its lexeme off the front
of a text.
-/

namespace RepoSurvey.Toml

abbrev Reading (α : Type) := Except ReadError (α × List Char)

def malformed {α : Type} : Except ReadError α := .error .malformed

def isGap (c : Char) : Bool := c == ' ' || c == '\t'

def skipGaps (text : List Char) : List Char := text.dropWhile isGap

def startsWith (opening : String) (text : List Char) : Bool := opening.toList.isPrefixOf text

/-- Control characters other than the tab; a line feed counts only where `lines` is false. -/
def isIllegal (lines : Bool) (c : Char) : Bool :=
  (c.toNat < 0x20 || c.toNat == 0x7F) && c != '\t' && !(lines && c == '\n')

/-- A comment up to the end of its line, if one starts here. -/
def skipComment (text : List Char) : Except ReadError (List Char) :=
  match text with
  | '#' :: rest =>
    if (rest.takeWhile (· != '\n')).any (isIllegal false) then malformed
    else .ok (rest.dropWhile (· != '\n'))
  | _ => .ok text

/-! ## Strings -/

/-- Where a reader stands inside a basic string. While it trims, it skips the blanks after a
backslash at the end of a line; `broken` tells whether the line has ended yet. -/
inductive StringState
  | plain
  | escaped
  | unicode (left value : Nat)
  | trimming (broken : Bool)

def simpleEscape? : Char → Option Char
  | 'b' => some '\x08'
  | 't' => some '\t'
  | 'n' => some '\n'
  | 'f' => some '\x0c'
  | 'r' => some '\r'
  | '"' => some '"'
  | '\\' => some '\\'
  | _ => none

def scalar? (code : Nat) : Option Char :=
  if code.isValidChar then some (Char.ofNat code) else none

/-- A character outside escapes that does not close the string. -/
def plainStep (lines : Bool) (c : Char) (read : List Char) :
    Except ReadError (List Char × StringState) :=
  if c = '\\' then .ok (read, .escaped)
  else if isIllegal lines c then malformed
  else .ok (c :: read, .plain)

def escapeStep (lines : Bool) (c : Char) (read : List Char) :
    Except ReadError (List Char × StringState) :=
  if c = 'u' then .ok (read, .unicode 4 0)
  else if c = 'U' then .ok (read, .unicode 8 0)
  else if lines && (c == ' ' || c == '\t') then .ok (read, .trimming false)
  else if lines && c == '\n' then .ok (read, .trimming true)
  else
    match simpleEscape? c with
    | some e => .ok (e :: read, .plain)
    | none => malformed

def stringStep (lines : Bool) (c : Char) (read : List Char) :
    StringState → Except ReadError (List Char × StringState)
  | .plain => plainStep lines c read
  | .escaped => escapeStep lines c read
  | .unicode left value =>
    match Text.hexValue? c with
    | none => malformed
    | some d =>
      if left ≤ 1 then
        match scalar? (value * 16 + d) with
        | some u => .ok (u :: read, .plain)
        | none => malformed
      else .ok (read, .unicode (left - 1) (value * 16 + d))
  | .trimming broken =>
    if c = ' ' ∨ c = '\t' then .ok (read, .trimming broken)
    else if c = '\n' then .ok (read, .trimming true)
    else if broken then plainStep lines c read
    else malformed

/-- Is this state one in which a quote may close the string? -/
def StringState.mayClose : StringState → Bool
  | .plain => true
  | .trimming broken => broken
  | _ => false

/-- The rest of a basic string after its opening; `lines` is true for one in triple quotes. -/
def readBasic (lines : Bool) (state : StringState) (read : List Char) :
    List Char → Reading (List Char)
  | [] => malformed
  | c :: text =>
    if c == '"' && state.mayClose then
      if !lines then .ok (read.reverse, text)
      else if startsWith "\"\"" text then .ok (read.reverse, text.drop 2)
      else readBasic lines .plain ('"' :: read) text
    else
      match stringStep lines c read state with
      | .error e => .error e
      | .ok (read, state) => readBasic lines state read text

/-- The rest of a literal string on one line. -/
def readLiteral (text : List Char) : Reading (List Char) :=
  let body := text.takeWhile (· != '\'')
  match text.dropWhile (· != '\'') with
  | [] => malformed
  | _ :: rest => if body.any (isIllegal false) then malformed else .ok (body, rest)

/-- The rest of a literal string in triple quotes. -/
def readLiteralLines (read : List Char) : List Char → Reading (List Char)
  | [] => malformed
  | c :: text =>
    if c == '\'' && startsWith "''" text then .ok (read.reverse, text.drop 2)
    else if isIllegal true c then malformed
    else readLiteralLines (c :: read) text

/-- Up to two quotes right after the closing ones belong to the string. -/
def extraQuotes (quote : Char) (body : List Char) (text : List Char) : List Char × List Char :=
  let extra := ((text.take 2).takeWhile (· == quote)).length
  (body ++ List.replicate extra quote, text.drop extra)

/-- A line feed right after the opening of a string in triple quotes is not part of it. -/
def dropFirstNewline : List Char → List Char
  | '\n' :: rest => rest
  | text => text

/-- A string of any of the four kinds, if one starts here. -/
def readString? (text : List Char) : Option (Reading (List Char)) :=
  if startsWith "\"\"\"" text then
    some ((readBasic true .plain [] (dropFirstNewline (text.drop 3))).map
      fun (body, rest) => extraQuotes '"' body rest)
  else if startsWith "\"" text then some (readBasic false .plain [] (text.drop 1))
  else if startsWith "'''" text then
    some ((readLiteralLines [] (dropFirstNewline (text.drop 3))).map
      fun (body, rest) => extraQuotes '\'' body rest)
  else if startsWith "'" text then some (readLiteral (text.drop 1))
  else none

/-! ## Keys -/

def isBareKey (c : Char) : Bool := c.isAlphanum || c == '-' || c == '_'

/-- One part of a dotted key. -/
def readKeyPart (text : List Char) : Reading String :=
  match text with
  | '"' :: rest => (readBasic false .plain [] rest).map fun (s, rest) => (String.ofList s, rest)
  | '\'' :: rest => (readLiteral rest).map fun (s, rest) => (String.ofList s, rest)
  | _ =>
    let bare := text.takeWhile isBareKey
    if bare.isEmpty then malformed else .ok (String.ofList bare, text.dropWhile isBareKey)

/-- A dotted key with the gaps after it. Every part takes a character of the text, so `fuel` need
not exceed its length. -/
def readKeyFrom : Nat → List Char → Reading (List String)
  | 0, _ => malformed
  | fuel + 1, text =>
    match readKeyPart text with
    | .error e => .error e
    | .ok (part, rest) =>
      match skipGaps rest with
      | '.' :: rest =>
        (readKeyFrom fuel (skipGaps rest)).map fun (parts, rest) => (part :: parts, rest)
      | rest => .ok ([part], rest)

def readKey (text : List Char) : Reading (List String) := readKeyFrom (text.length + 1) text

/-! ## Numbers -/

/-- Further digits, each behind a single low line or none; `read` holds the earlier ones, last
first. -/
def moreDigits (isDigit : Char → Bool) (read : List Char) : List Char → List Char × List Char
  | '_' :: c :: text =>
    if isDigit c then moreDigits isDigit (c :: read) text else (read.reverse, '_' :: c :: text)
  | c :: text =>
    if isDigit c then moreDigits isDigit (c :: read) text else (read.reverse, c :: text)
  | [] => (read.reverse, [])

/-- One or more digits. -/
def digits? (isDigit : Char → Bool) (text : List Char) : Option (List Char × List Char) :=
  match text with
  | c :: rest => if isDigit c then some (moreDigits isDigit [c] rest) else none
  | [] => none

/-- The base that a letter after a zero stands for, with its digits. -/
def base? : Char → Option (Nat × (Char → Bool))
  | 'x' => some (16, Text.isHexDigit)
  | 'o' => some (8, fun c => '0' ≤ c && c ≤ '7')
  | 'b' => some (2, fun c => c == '0' || c == '1')
  | _ => none

/-- A whole number in a base other than ten. -/
def readBased? (text : List Char) : Option (Toml × List Char) :=
  match text with
  | '0' :: letter :: rest => do
    let (base, isDigit) ← base? letter
    let (digits, rest) ← digits? isDigit rest
    return (.integer (Text.ofDigits base (digits.filterMap Text.hexValue?)), rest)
  | _ => none

/-- The digits before the point. -/
def wholeDigits? (text : List Char) : Option (List Char × List Char) :=
  match text with
  | '0' :: rest => some (['0'], rest)
  | _ => digits? Char.isDigit text

def fractionDigits? (text : List Char) : Option (List Char × List Char) :=
  match text with
  | '.' :: rest => digits? Char.isDigit rest
  | _ => none

def exponent? (text : List Char) : Option (Int × List Char) :=
  match text with
  | c :: rest =>
    if c == 'e' || c == 'E' then do
      let (negative, rest) := Number.splitSign rest
      let (digits, rest) ← digits? Char.isDigit rest
      return (Number.signed negative (Text.asciiNat digits), rest)
    else none
  | [] => none

/-- A decimal number; a whole one may not have more than `digitLimit` digits. -/
def readDecimal? (text : List Char) : Option (Reading Toml) := do
  let (negative, unsigned) := Number.splitSign text
  let (whole, rest) ← wholeDigits? unsigned
  let fraction := fractionDigits? rest
  let (places, afterFraction) := fraction.getD ([], rest)
  let exponent := exponent? afterFraction
  let (power, afterExponent) := exponent.getD (0, afterFraction)
  if fraction.isNone && exponent.isNone then
    if whole.length > digitLimit then return .error (.tooManyDigits whole.length)
    else return .ok (.integer (Number.signed negative (Text.asciiNat whole)), rest)
  else
    let x : Decimal := ⟨negative, Text.asciiNat (whole ++ places), power - places.length⟩
    return .ok (.real (.ofDecimal x), afterExponent)

/-- The words for numbers that are not finite. -/
def specials : List (String × Binary64) :=
  [("inf", .infinite false), ("+inf", .infinite false), ("-inf", .infinite true),
   ("nan", .nan), ("+nan", .nan), ("-nan", .nan)]

def readSpecial? (text : List Char) : Option (Toml × List Char) :=
  (specials.find? fun (word, _) => startsWith word text).map
    fun (word, x) => (.real x, text.drop word.length)

/-! ## Moments -/

/-- A number of exactly `count` digits between two bounds. -/
def fixedDigits? (count least most : Nat) (text : List Char) : Option (Nat × List Char) :=
  let digits := text.take count
  if digits.length == count && digits.all Char.isDigit then
    let n := Text.asciiNat digits
    if least ≤ n ∧ n ≤ most then some (n, text.drop count) else none
  else none

def char? (c : Char) (text : List Char) : Option (List Char) :=
  match text with
  | d :: rest => if d = c then some rest else none
  | [] => none

/-- What follows a time of day with seconds, whose fraction may have any number of digits. -/
def afterTime? (text : List Char) : Option (List Char) := do
  let (_, rest) ← fixedDigits? 2 0 23 text
  let (_, rest) ← fixedDigits? 2 0 59 (← char? ':' rest)
  let (_, rest) ← fixedDigits? 2 0 59 (← char? ':' rest)
  match rest with
  | '.' :: c :: fraction => if c.isDigit then return fraction.dropWhile Char.isDigit else return rest
  | _ => return rest

/-- What follows an offset from universal time, if one stands here. -/
def afterOffset (text : List Char) : List Char :=
  match text with
  | 'Z' :: rest => rest
  | 'z' :: rest => rest
  | c :: rest =>
    if c == '+' || c == '-' then
      let offset := do
        let (_, rest) ← fixedDigits? 2 0 23 rest
        let (_, rest) ← fixedDigits? 2 0 59 (← char? ':' rest)
        return rest
      offset.getD text
    else text
  | [] => []

def isLeapYear (year : Nat) : Bool := (year % 4 == 0 && year % 100 != 0) || year % 400 == 0

def daysIn (year month : Nat) : Nat :=
  if month = 2 then (if isLeapYear year then 29 else 28)
  else if month ∈ [4, 6, 9, 11] then 30
  else 31

/-- A date and what follows it: whether there is such a day, and the rest of the text. -/
def date? (text : List Char) : Option (Bool × List Char) := do
  let (year, rest) ← fixedDigits? 4 0 9999 text
  let (month, rest) ← fixedDigits? 2 1 12 (← char? '-' rest)
  let (day, rest) ← fixedDigits? 2 1 31 (← char? '-' rest)
  return (1 ≤ year && day ≤ daysIn year month, rest)

/-- What follows the time of day and the offset after a date, if they stand here. -/
def afterDateTime (text : List Char) : List Char :=
  match text with
  | c :: rest =>
    if c == 'T' || c == 't' || c == ' ' then
      match afterTime? rest with
      | some rest => afterOffset rest
      | none => text
    else text
  | [] => []

def writtenUpTo (text rest : List Char) : Toml :=
  .moment (String.ofList (text.take (text.length - rest.length)))

/-- A date, a time of day or both, if one starts here. -/
def readMoment? (text : List Char) : Option (Reading Toml) :=
  match date? text with
  | some (isDay, rest) =>
    let rest := afterDateTime rest
    some (if isDay then .ok (writtenUpTo text rest, rest) else malformed)
  | none => (afterTime? text).map fun rest => .ok (writtenUpTo text rest, rest)

end RepoSurvey.Toml
