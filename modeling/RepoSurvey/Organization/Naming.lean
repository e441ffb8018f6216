import RepoSurvey.Text.Lines
import RepoSurvey.Text.Upper

/-!
# Naming conventions of files

The convention is judged from the name without its extension and without a dot before it.

* `Convention.ofFileName?`: the convention of a file name, if it has one;
* `Convention.strict?`: the conventions that a name follows to the letter.
-/

namespace RepoSurvey

inductive Convention
  | screamingSnake
  | pascalCase
  | camelCase
  | kebabCase
  | snakeCase
  deriving DecidableEq, Repr

namespace Convention

def text : Convention → String
  | .screamingSnake => "SCREAMING_SNAKE"
  | .pascalCase => "PascalCase"
  | .camelCase => "camelCase"
  | .kebabCase => "kebab-case"
  | .snakeCase => "snake_case"

/-- The name up to its last dot, unless nothing follows the dot. -/
def dropExtension (name : List Char) : List Char :=
  let ending := name.reverse.takeWhile (· != '.')
  match name.reverse.dropWhile (· != '.') with
  | _ :: stem => if ending.isEmpty then name else stem.reverse
  | [] => name

def dropLeadingDot : List Char → List Char
  | '.' :: rest => rest
  | name => name

/-- A line feed at the very end of a name does not matter to the strict conventions. -/
def dropFinalNewline (name : List Char) : List Char :=
  if name.getLast? = some '\n' then name.dropLast else name

def isCapitalChar (c : Char) : Bool := c.isUpper || c.isDigit || c == '_'

def isLowerOrDigit (c : Char) : Bool := c.isLower || c.isDigit

def isScreaming : List Char → Bool
  | c :: rest => c.isUpper && !rest.isEmpty && rest.all isCapitalChar
  | [] => false

def isPascal : List Char → Bool
  | c :: rest => c.isUpper && rest.all Char.isAlphanum
  | [] => false

def isCamel : List Char → Bool
  | c :: rest => c.isLower && rest.all Char.isAlphanum
  | [] => false

/-- Two or more words in lower case with a separator between them; the first starts with a
letter. -/
def isSeparated (separator : Char) (name : List Char) : Bool :=
  match Text.splitAtEvery (· == separator) name with
  | (c :: first) :: rest =>
    c.isLower && first.all isLowerOrDigit && !rest.isEmpty
      && rest.all fun word => !word.isEmpty && word.all isLowerOrDigit
  | _ => false

/-- The first convention that a name follows to the letter. -/
def strict? (name : List Char) : Option Convention :=
  if isScreaming name then some .screamingSnake
  else if isPascal name then some .pascalCase
  else if isCamel name then some .camelCase
  else if isSeparated '-' name then some .kebabCase
  else if isSeparated '_' name then some .snakeCase
  else none

/-- The convention that a name comes closest to. -/
def closest (name : List Char) : Convention :=
  if name.contains '-' then .kebabCase
  else if name.contains '_' then .snakeCase
  else if (name.head?.map Text.isUppercase).getD false then .pascalCase
  else .camelCase

/-- The convention of a bare name. Index files and empty names have none. -/
def ofName? (name : List Char) : Option Convention :=
  if name.isEmpty || name == "index".toList then none
  else some ((strict? (dropFinalNewline name)).getD (closest name))

def ofFileName? (name : String) : Option Convention :=
  ofName? (dropLeadingDot (dropExtension name.toList))

/-- What the convention of a file without one is called. -/
def unknownText : String := "unknown"

end Convention

end RepoSurvey
