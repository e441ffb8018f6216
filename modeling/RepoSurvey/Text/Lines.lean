/-!
# Lines of a text

* `lines` splits at line feeds only, `splitLines` at every line boundary of Unicode;
* `unixNewlines` makes every carriage return, with the line feed after it if there is one, a
  line feed;
* `lines_ne_nil`: a text has at least one line; `not_mem_newline_of_mem_lines`: no line holds a
  line feed.
-/

namespace RepoSurvey.Text

/-- Put a character in front of the first line. -/
def consHead (c : Char) : List (List Char) → List (List Char)
  | [] => [[c]]
  | line :: rest => (c :: line) :: rest

/-- The pieces of a text between the characters that satisfy `p`. -/
def splitAtEvery (p : Char → Bool) (text : List Char) : List (List Char) :=
  text.foldr (fun c rest => if p c then [] :: rest else consHead c rest) [[]]

@[simp] theorem splitAtEvery_nil (p : Char → Bool) : splitAtEvery p [] = [[]] := rfl

@[simp] theorem splitAtEvery_cons (p : Char → Bool) (c : Char) (text : List Char) :
    splitAtEvery p (c :: text)
      = if p c then [] :: splitAtEvery p text else consHead c (splitAtEvery p text) := rfl

/-- The lines of a text, split at line feeds only. -/
def lines (text : List Char) : List (List Char) := splitAtEvery (· == '\n') text

theorem splitAtEvery_ne_nil (p : Char → Bool) (text : List Char) : splitAtEvery p text ≠ [] := by
  cases text with
  | nil => simp
  | cons c text =>
    rw [splitAtEvery_cons]
    split
    · simp
    · cases splitAtEvery p text <;> simp [consHead]

theorem lines_ne_nil (text : List Char) : lines text ≠ [] := splitAtEvery_ne_nil _ text

theorem not_of_mem_splitAtEvery {p : Char → Bool} {text piece : List Char}
    (h : piece ∈ splitAtEvery p text) : ∀ c ∈ piece, p c = false := by
  induction text generalizing piece with
  | nil => simp_all
  | cons c text ih =>
    rw [splitAtEvery_cons] at h
    split at h
    · rcases List.mem_cons.mp h with rfl | h
      · simp
      · exact ih h
    · rename_i hc
      cases hs : splitAtEvery p text with
      | nil => exact absurd hs (splitAtEvery_ne_nil p text)
      | cons line rest =>
        rw [hs] at h ih
        rcases List.mem_cons.mp h with rfl | h
        · intro d hd
          rcases List.mem_cons.mp hd with rfl | hd
          · simpa using hc
          · exact ih (List.mem_cons_self ..) d hd
        · exact ih (List.mem_cons_of_mem _ h)

theorem not_mem_newline_of_mem_lines {text line : List Char} (h : line ∈ lines text) :
    '\n' ∉ line := by
  intro hn
  simpa using not_of_mem_splitAtEvery h '\n' hn

/-- Line feeds for carriage returns; a line feed after a carriage return is dropped. -/
def unixNewlines (text : List Char) : List Char :=
  (text.foldr
    (fun c (next, out) =>
      if c = '\r' then (c, if next = '\n' then out else '\n' :: out) else (c, c :: out))
    ('\x00', [])).2

/-- The characters that end a line, besides the pair of carriage return and line feed. -/
def isLineBoundary (c : Char) : Bool :=
  c == '\n' || c == '\r' || c == '\x0b' || c == '\x0c' || c == '\x1c' || c == '\x1d'
    || c == '\x1e' || c == '\x85' || c == '\u2028' || c == '\u2029'

/-- The lines of a text, split at every line boundary. A boundary at the end of the text opens
no further line. -/
def splitLines (text : List Char) : List (List Char) :=
  let pieces := splitAtEvery isLineBoundary (unixNewlines text)
  if pieces.getLast? = some [] then pieces.dropLast else pieces

/-- Does `piece` stand somewhere in `text`? -/
def containsText (piece : List Char) : List Char → Bool
  | [] => piece.isEmpty
  | c :: text => piece.isPrefixOf (c :: text) || containsText piece text

end RepoSurvey.Text
