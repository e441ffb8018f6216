import RepoSurvey.Json.Basic
import RepoSurvey.Text.Digit

/-!
# Writing JSON

* `Json.Style` fixes the spacing and whether characters beyond ASCII are escaped;
* `Json.render` writes a value in a style.
-/

namespace RepoSurvey.Json

structure Style where
  /-- Escape every character that is not visible ASCII. -/
  ascii : Bool
  /-- The spaces per level, each item on its own line; `none` writes no spaces at all. -/
  indent : Option Nat

/-- One line without spaces, in ASCII. -/
def Style.compact : Style := ⟨true, none⟩

/-- Two spaces per level. -/
def Style.indented (ascii : Bool) : Style := ⟨ascii, some 2⟩

def unicodeEscape (unit : Nat) : List Char := '\\' :: 'u' :: Text.hexDigits 4 unit

/-- A character by its code in escapes: one escape, or a surrogate pair beyond U+FFFF. -/
def codeEscape (c : Char) : List Char :=
  if c.toNat < 0x10000 then unicodeEscape c.toNat
  else
    let n := c.toNat - 0x10000
    unicodeEscape (0xD800 + n / 0x400) ++ unicodeEscape (0xDC00 + n % 0x400)

def escapeChar (ascii : Bool) (c : Char) : List Char :=
  if c = '"' then ['\\', '"']
  else if c = '\\' then ['\\', '\\']
  else if c = '\n' then ['\\', 'n']
  else if c = '\r' then ['\\', 'r']
  else if c = '\t' then ['\\', 't']
  else if c = '\x0c' then ['\\', 'f']
  else if c = '\x08' then ['\\', 'b']
  else if c.toNat < 0x20 || (ascii && 0x7E < c.toNat) then codeEscape c
  else [c]

def renderString (ascii : Bool) (s : String) : List Char :=
  '"' :: (s.toList.flatMap (escapeChar ascii) ++ ['"'])

def floatText : Binary64 → List Char
  | .nan => "NaN".toList
  | .infinite negative => (if negative then ['-'] else []) ++ "Infinity".toList
  | x => x.text

def intText (n : Int) : List Char :=
  (if n < 0 then ['-'] else []) ++ Nat.toDigits 10 n.natAbs

/-- The start of a new line at a level. -/
def newline (style : Style) (level : Nat) : List Char :=
  match style.indent with
  | none => []
  | some width => '\n' :: List.replicate (width * level) ' '

/-- What stands between a name and its value. -/
def colon (style : Style) : List Char := if style.indent.isSome then [':', ' '] else [':']

mutual

def renderAt (style : Style) (level : Nat) : Json → List Char
  | .null => "null".toList
  | .bool b => (if b then "true" else "false").toList
  | .int n => intText n
  | .float x => floatText x
  | .str s => renderString style.ascii s
  | .arr [] => ['[', ']']
  | .arr (item :: items) =>
    '[' :: (newline style (level + 1) ++ renderAt style (level + 1) item
      ++ renderItems style (level + 1) items ++ newline style level ++ [']'])
  | .obj [] => ['\x7b', '\x7d']
  | .obj ((name, value) :: members) =>
    '\x7b' :: (newline style (level + 1) ++ renderString style.ascii name ++ colon style
      ++ renderAt style (level + 1) value ++ renderMembers style (level + 1) members
      ++ newline style level ++ ['\x7d'])

/-- The items after the first, each behind its comma. -/
def renderItems (style : Style) (level : Nat) : List Json → List Char
  | [] => []
  | item :: items =>
    ',' :: (newline style level ++ renderAt style level item ++ renderItems style level items)

/-- The members after the first, each behind its comma. -/
def renderMembers (style : Style) (level : Nat) : List (String × Json) → List Char
  | [] => []
  | (name, value) :: members =>
    ',' :: (newline style level ++ renderString style.ascii name ++ colon style
      ++ renderAt style level value ++ renderMembers style level members)

end

def render (style : Style) (value : Json) : List Char := renderAt style 0 value

end RepoSurvey.Json
