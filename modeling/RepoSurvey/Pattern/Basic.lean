import RepoSurvey.Text.Blank
import RepoSurvey.Text.Digit
import RepoSurvey.Text.Word

/-!
# Text patterns

Regular expressions whose unbounded repetitions are over single characters, with captures and
anchors.

* `Pattern` and the functions that build patterns;
* `Pattern.run` matches at a cursor, by backtracking: of the ways to match it takes the first in
  the order of preference (the left alternative, the longest or the shortest repetition) from
  which the rest succeeds;
* `Pattern.ignoringCase` makes a pattern blind to case.
-/

namespace RepoSurvey

structure CharSet where
  contains : Char → Bool

inductive Anchor
  /-- The start and the end of the text; a line feed at the very end may follow the latter. -/
  | textStart
  | textEnd
  /-- The start and the end of a line. -/
  | lineStart
  | lineEnd
  /-- Between a word character and anything else. -/
  | wordEdge
  deriving DecidableEq, Repr

inductive Preference
  | longest
  | shortest
  deriving DecidableEq, Repr

inductive Pattern
  | empty
  | one (set : CharSet)
  | seq (first second : Pattern)
  | alt (first second : Pattern)
  /-- Between `least` and `most` characters of a set. -/
  | repeated (set : CharSet) (least : Nat) (most : Option Nat) (preference : Preference)
  | capture (inner : Pattern)
  | anchor (anchor : Anchor)

namespace CharSet

def oneOf (chars : String) : CharSet := ⟨fun c => chars.toList.contains c⟩

def noneOf (chars : String) : CharSet := ⟨fun c => !chars.toList.contains c⟩

def single (c : Char) : CharSet := ⟨fun d => d == c⟩

def any : CharSet := ⟨fun _ => true⟩

/-- Everything within a line. -/
def inLine : CharSet := ⟨fun c => c != '\n'⟩

def blank : CharSet := ⟨Text.isBlank⟩

def nonBlank : CharSet := ⟨fun c => !Text.isBlank c⟩

def digit : CharSet := ⟨Text.isDecimalDigit⟩

def word : CharSet := ⟨Text.isWordChar⟩

/-- The characters that differ from an ASCII letter in case only and are not ASCII letters, and
the letters they differ from. -/
def remoteVariants (c : Char) : List Char :=
  if c = '\u017f' then ['s', 'S']
  else if c = '\u212a' then ['k', 'K']
  else if c = '\u0130' ∨ c = '\u0131' then ['i', 'I']
  else if c = 's' ∨ c = 'S' then ['\u017f']
  else if c = 'k' ∨ c = 'K' then ['\u212a']
  else if c = 'i' ∨ c = 'I' then ['\u0130', '\u0131']
  else []

/-- The characters one of whose case variants is in the set. -/
def ignoringCase (set : CharSet) : CharSet :=
  ⟨fun c => set.contains c || set.contains c.toLower || set.contains c.toUpper
    || (remoteVariants c).any set.contains⟩

end CharSet

namespace Pattern

/-! ## Building patterns -/

instance : Coe CharSet Pattern := ⟨.one⟩

def seqs : List Pattern → Pattern
  | [] => .empty
  | [p] => p
  | p :: ps => .seq p (seqs ps)

def alts : List Pattern → Pattern
  | [] => .empty
  | [p] => p
  | p :: ps => .alt p (alts ps)

def literal (text : String) : Pattern := seqs (text.toList.map fun c => .one (.single c))

instance : Coe String Pattern := ⟨literal⟩

/-- The pattern if possible, else nothing. -/
def optional (p : Pattern) : Pattern := .alt p .empty

def star (set : CharSet) : Pattern := .repeated set 0 none .longest

def plus (set : CharSet) : Pattern := .repeated set 1 none .longest

/-- Any number of blanks. -/
def blanks : Pattern := star .blank

/-- At least one blank. -/
def blanks1 : Pattern := plus .blank

/-- Any stretch of a line. -/
def stretch : Pattern := star .inLine

/-- A quotation mark of any kind. -/
def quote : CharSet := .oneOf "'\"`"

def ignoringCase : Pattern → Pattern
  | .one set => .one set.ignoringCase
  | .seq p q => .seq p.ignoringCase q.ignoringCase
  | .alt p q => .alt p.ignoringCase q.ignoringCase
  | .repeated set least most preference => .repeated set.ignoringCase least most preference
  | .capture p => .capture p.ignoringCase
  | p => p

end Pattern

/-! ## Matching -/

/-- A captured text, as the first `length` characters of `text`. -/
structure Capture where
  text : List Char
  length : Nat

def Capture.chars (c : Capture) : List Char := c.text.take c.length

/-- A place in a text: the character before it, the text after it, and how many characters were
passed; with what was captured on the way, last first. -/
structure Cursor where
  before : Option Char
  rest : List Char
  offset : Nat
  captured : List Capture

def Cursor.start (text : List Char) : Cursor := ⟨none, text, 0, []⟩

namespace Pattern

def isWordOption (c : Option Char) : Bool :=
  match c with
  | some c => Text.isWordChar c
  | none => false

def holds (anchor : Anchor) (cur : Cursor) : Bool :=
  match anchor with
  | .textStart => cur.before.isNone
  | .textEnd => cur.rest.isEmpty || cur.rest == ['\n']
  | .lineStart => cur.before.isNone || cur.before == some '\n'
  | .lineEnd => cur.rest.isEmpty || cur.rest.head? == some '\n'
  | .wordEdge => isWordOption cur.before != isWordOption cur.rest.head?

/-- The cursors reached by passing up to `most` characters of a set, the farthest first. -/
def reachable (set : CharSet) (captured : List Capture) :
    Option Nat → Option Char → Nat → List Char → List Cursor → List Cursor
  | _, before, offset, [], reached => ⟨before, [], offset, captured⟩ :: reached
  | most, before, offset, c :: rest, reached =>
    let reached := ⟨before, c :: rest, offset, captured⟩ :: reached
    if set.contains c && most != some 0 then
      reachable set captured (most.map (· - 1)) (some c) (offset + 1) rest reached
    else reached

/-- Try the cursors reached by passing characters of a set, the nearest first. -/
def tryNearest {α : Type} (set : CharSet) (captured : List Capture) (k : Cursor → Option α) :
    Nat → Option Nat → Option Char → Nat → List Char → Option α
  | least, _, before, offset, [] =>
    if least = 0 then k ⟨before, [], offset, captured⟩ else none
  | least, most, before, offset, c :: rest =>
    let here := if least = 0 then k ⟨before, c :: rest, offset, captured⟩ else none
    match here with
    | some a => some a
    | none =>
      if set.contains c && most != some 0 then
        tryNearest set captured k (least - 1) (most.map (· - 1)) (some c) (offset + 1) rest
      else none

/-- Match at a cursor and go on with `k`, the first way to match from which `k` succeeds. -/
def run {α : Type} : Pattern → Cursor → (Cursor → Option α) → Option α
  | .empty, cur, k => k cur
  | .one set, cur, k =>
    match cur.rest with
    | [] => none
    | c :: rest =>
      if set.contains c then k ⟨some c, rest, cur.offset + 1, cur.captured⟩ else none
  | .seq p q, cur, k => p.run cur fun next => q.run next k
  | .alt p q, cur, k =>
    match p.run cur k with
    | some a => some a
    | none => q.run cur k
  | .repeated set least most preference, cur, k =>
    match preference with
    | .longest =>
      ((reachable set cur.captured most cur.before cur.offset cur.rest []).filter
        fun next => cur.offset + least ≤ next.offset).findSome? k
    | .shortest => tryNearest set cur.captured k least most cur.before cur.offset cur.rest
  | .capture p, cur, k =>
    p.run cur fun next =>
      k { next with captured := ⟨cur.rest, next.offset - cur.offset⟩ :: next.captured }
  | .anchor a, cur, k => if holds a cur then k cur else none

end Pattern

end RepoSurvey
