import RepoSurvey.Text.CodeRange

/-!
# Blank characters

White space in the sense of Unicode together with the four information separators
U+001C to U+001F. `isBlank_of_isWhitespace` says that ASCII white space is blank;
`trim`, `trimLeft` and `trimRight` remove blanks from the ends of a text.
-/

namespace RepoSurvey.Text

def blankRanges : List CodeRange :=
  CodeRange.table [(0x9, 0xD), (0x1C, 0x20), (0x85, 0x85), (0xA0, 0xA0), (0x1680, 0x1680),
    (0x2000, 0x200A), (0x2028, 0x2029), (0x202F, 0x202F), (0x205F, 0x205F), (0x3000, 0x3000)]

def isBlank (c : Char) : Bool := CodeRange.anyContains blankRanges c

theorem isBlank_of_isWhitespace {c : Char} (h : c.isWhitespace = true) : isBlank c = true := by
  simp only [Char.isWhitespace, Bool.or_eq_true, decide_eq_true_eq] at h
  rcases h with ((rfl | rfl) | rfl) | rfl <;> decide

def trimLeft (text : List Char) : List Char := text.dropWhile isBlank

def trimRight (text : List Char) : List Char := (text.reverse.dropWhile isBlank).reverse

/-- The text without the blanks at its two ends. -/
def trim (text : List Char) : List Char := trimRight (trimLeft text)

/-- Only blanks, or nothing. -/
def isBlankText (text : List Char) : Bool := text.all isBlank

/-- The text without the given character at its two ends. -/
def trimChar (c : Char) (text : List Char) : List Char :=
  ((text.dropWhile (· == c)).reverse.dropWhile (· == c)).reverse

end RepoSurvey.Text
