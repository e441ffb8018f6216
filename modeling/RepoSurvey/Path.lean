import RepoSurvey.Text.Lines

/-!
# Names and paths

A path is a list of segments, from the root or relative. Reading a path drops empty segments
and those that are a single dot; segments of two dots stay.

* `Name.suffix`, `Name.stem`: the part of a name from its last dot on, and the part before;
* `Path.ofText`, `Path.text`;
* `stem_append_suffix`: the two parts make up the name.
-/

namespace RepoSurvey

namespace Name

/-- The last dot of a name and what follows it, unless the dot is the first or the last
character. Both parts are lists of characters, the stem before the dot and the suffix with it. -/
def splitSuffix (name : List Char) : List Char × List Char :=
  let ending := name.reverse.takeWhile (· != '.')
  match name.reverse.dropWhile (· != '.') with
  | '.' :: stem =>
    if ending.isEmpty || stem.isEmpty then (name, [])
    else (stem.reverse, '.' :: ending.reverse)
  | _ => (name, [])

def suffix (name : String) : String := String.ofList (splitSuffix name.toList).2

def stem (name : String) : String := String.ofList (splitSuffix name.toList).1

theorem splitSuffix_append (name : List Char) :
    (splitSuffix name).1 ++ (splitSuffix name).2 = name := by
  unfold splitSuffix
  have whole := List.takeWhile_append_dropWhile (p := (· != '.')) (l := name.reverse)
  split
  · rename_i stem h
    rw [h] at whole
    dsimp only
    split
    · simp
    · simpa using congrArg List.reverse whole
  · simp

theorem stem_append_suffix (name : String) : stem name ++ suffix name = name := by
  rw [stem, suffix, ← String.ofList_append, splitSuffix_append, String.ofList_toList]

end Name

/-- The pieces of a text between slashes. -/
def splitSlashes (text : String) : List String :=
  (Text.splitAtEvery (· == '/') text.toList).map String.ofList

structure Path where
  absolute : Bool
  segments : List String
  deriving DecidableEq, Repr

namespace Path

def relative (segments : List String) : Path := ⟨false, segments⟩

def ofText (text : String) : Path :=
  ⟨text.startsWith "/", (splitSlashes text).filter fun s => s != "" && s != "."⟩

def joined (segments : List String) : String := "/".intercalate segments

def text (p : Path) : String :=
  if p.absolute then "/" ++ joined p.segments
  else if p.segments.isEmpty then "."
  else joined p.segments

/-- The last segment; the root and the empty path have none. -/
def name (p : Path) : String := p.segments.getLast?.getD ""

def parent (p : Path) : Path := ⟨p.absolute, p.segments.dropLast⟩

/-- An absolute path replaces the one it is added to. -/
def join (p q : Path) : Path := if q.absolute then q else ⟨p.absolute, p.segments ++ q.segments⟩

def child (p : Path) (name : String) : Path := ⟨p.absolute, p.segments ++ [name]⟩

/-- The path of what stands at some segments from a path. -/
def below (p : Path) (segments : List String) : Path := ⟨p.absolute, p.segments ++ segments⟩

/-- Is there a character with code zero, which no name has? -/
def hasNull (p : Path) : Bool := p.segments.any fun s => s.toList.contains '\x00'

/-- Remove every pair of an ordinary segment and the two dots after it. Two dots at the root go
away; at the start of a relative path they stay. -/
def normalize (p : Path) : Path :=
  ⟨p.absolute, (p.segments.foldl (fun kept s =>
    if s = ".." then
      match kept with
      | [] => if p.absolute then [] else [".."]
      | top :: rest => if top = ".." then ".." :: top :: rest else rest
    else s :: kept) []).reverse⟩

end Path

end RepoSurvey
