import RepoSurvey.Pattern.FirstChar

/-!
# Searching a text for a pattern

* `Pattern.matchStart?`: a match at the start of a text;
* `Pattern.matchAt?_eq_run`: a match at a place is what matching there gives, though the places
  whose next character rules it out are passed over;
* `Pattern.occursIn`: is there a match anywhere?
* `Pattern.findAll`: the matches from left to right, each after the end of the one before.
-/

namespace RepoSurvey

/-- A stretch of a text that matches a pattern, with the texts captured in it. -/
structure Match where
  start : Nat
  stop : Nat
  captures : List (List Char)
  deriving DecidableEq, Repr

namespace Match

/-- The `n`th capture, counted from zero. -/
def capture (m : Match) (n : Nat) : List Char := (m.captures[n]?).getD []

def text (m : Match) (n : Nat) : String := String.ofList (m.capture n)

end Match

namespace Pattern

def matchAt? (p : Pattern) (before : Option Char) (offset : Nat) (rest : List Char) :
    Option Match :=
  if p.admits rest then
    p.run ⟨before, rest, offset, []⟩ fun stop =>
      some ⟨offset, stop.offset, stop.captured.reverse.map Capture.chars⟩
  else none

theorem matchAt?_eq_run (p : Pattern) (before : Option Char) (offset : Nat) (rest : List Char) :
    p.matchAt? before offset rest = p.run ⟨before, rest, offset, []⟩ fun stop =>
      some ⟨offset, stop.offset, stop.captured.reverse.map Capture.chars⟩ := by
  unfold matchAt?
  split
  · rfl
  · rename_i h
    exact (run_eq_none_of_not_admits (by simpa using h)).symm

def matchStart? (p : Pattern) (text : List Char) : Option Match := p.matchAt? none 0 text

/-- Does the pattern match here or further on? -/
def occursFrom (p : Pattern) (before : Option Char) (offset : Nat) : List Char → Bool
  | [] => (p.matchAt? before offset []).isSome
  | c :: rest =>
    (p.matchAt? before offset (c :: rest)).isSome || p.occursFrom (some c) (offset + 1) rest

def occursIn (p : Pattern) (text : List Char) : Bool := p.occursFrom none 0 text

/-- The matches from here on, after the first `skip` characters; `found` holds the earlier ones,
last first. An empty match moves on by one character. -/
def findFrom (p : Pattern) (before : Option Char) (offset skip : Nat) (found : List Match) :
    List Char → List Match
  | [] =>
    if skip = 0 then
      match p.matchAt? before offset [] with
      | some m => (m :: found).reverse
      | none => found.reverse
    else found.reverse
  | c :: rest =>
    match skip with
    | skip + 1 => p.findFrom (some c) (offset + 1) skip found rest
    | 0 =>
      match p.matchAt? before offset (c :: rest) with
      | some m => p.findFrom (some c) (offset + 1) (m.stop - offset - 1) (m :: found) rest
      | none => p.findFrom (some c) (offset + 1) 0 found rest

def findAll (p : Pattern) (text : List Char) : List Match := p.findFrom none 0 0 [] text

def count (p : Pattern) (text : List Char) : Nat := (p.findAll text).length

end Pattern

end RepoSurvey
