import RepoSurvey.Toml.Lexeme

/-!
# Reading TOML

* `Toml.readValue` reads a value;
* `Toml.Document` is what has been read so far: the tables, the place that statements go to, and
  the paths that are closed to further statements;
* `Toml.read` reads a whole text.

Arrays and inline tables may nest as deeply as the stack has room for. An array takes
`arrayFrames` of it and an inline table `tableFrames`; what is on the stack for a moment to read a
value without parts is left out. A text that nests more deeply is not malformed.

A path is *declared* once a header names it, or once a dotted key went through it and the next
header has come; a declared path has no further header and no dotted key. A path is *frozen* if
an array or an inline table was given as its value; nothing below it may be changed.
-/

namespace RepoSurvey.Toml

/-! ## Values -/

/-- White space, line ends and comments. Every comment takes a character, so `fuel` need not
exceed the length of the text. -/
def skipFillFrom : Nat → List Char → Except ReadError (List Char)
  | 0, text => .ok text
  | fuel + 1, text =>
    match text.dropWhile (fun c => isGap c || c == '\n') with
    | '#' :: rest => (skipComment ('#' :: rest)).bind (skipFillFrom fuel)
    | rest => .ok rest

def skipFill (text : List Char) : Except ReadError (List Char) := skipFillFrom text.length text

/-- Is a path at or below one of the given ones? -/
def isUnder (paths : List (List String)) (path : List String) : Bool :=
  paths.any fun p => p.isPrefixOf path

/-- Give a name a value that it does not have yet. -/
def putNew? (name : String) (value : Toml) (t : Table Toml) : Option (Table Toml) :=
  if (t.get? name).isSome then none else some (t.put name value)

/-- A value that is neither an array nor an inline table. -/
def readScalar (text : List Char) : Reading Toml :=
  match readString? text with
  | some r => r.map fun (s, rest) => (.str (String.ofList s), rest)
  | none =>
    if startsWith "true" text then .ok (.bool true, text.drop 4)
    else if startsWith "false" text then .ok (.bool false, text.drop 5)
    else
      match readMoment? text with
      | some r => r
      | none =>
        match readBased? text with
        | some r => .ok r
        | none =>
          match readDecimal? text with
          | some r => r
          | none =>
            match readSpecial? text with
            | some r => .ok r
            | none => malformed

/-- The frames of the stack that an array takes: one to read it and one for the value that it is. -/
def arrayFrames : Nat := 2

/-- The frames that an inline table takes: one more, for its entries. -/
def tableFrames : Nat := 3

/-- The room that is left on the stack behind some frames, if they fit. -/
def enter? (frames room : Nat) : Option Nat := if frames ≤ room then some (room - frames) else none

mutual

/-- A value. Every step of the reader takes a character, so `fuel` need not exceed the length of
the text by more than one. -/
def readValueFrom (room : Nat) : Nat → List Char → Reading Toml
  | 0, _ => malformed
  | fuel + 1, text =>
    match text with
    | '[' :: rest =>
      match enter? arrayFrames room with
      | none => .error (.tooDeep .call)
      | some inner =>
        match readItems inner fuel rest with
        | .error e => .error e
        | .ok (items, rest) => .ok (.array items, rest)
    | '\x7b' :: rest =>
      match enter? tableFrames room with
      | none => .error (.tooDeep .call)
      | some inner =>
        match skipGaps rest with
        | '\x7d' :: rest => .ok (.table [], rest)
        | rest =>
          match readEntries inner fuel [] [] rest with
          | .error e => .error e
          | .ok (entries, rest) => .ok (.table entries, rest)
    | _ => readScalar text

/-- The items of an array up to its closing bracket. -/
def readItems (room : Nat) : Nat → List Char → Reading (List Toml)
  | 0, _ => malformed
  | fuel + 1, text =>
    match skipFill text with
    | .error e => .error e
    | .ok (']' :: rest) => .ok ([], rest)
    | .ok text =>
      match readValueFrom room fuel text with
      | .error e => .error e
      | .ok (item, rest) =>
        match skipFill rest with
        | .error e => .error e
        | .ok (']' :: rest) => .ok ([item], rest)
        | .ok (',' :: rest) =>
          match readItems room fuel rest with
          | .error e => .error e
          | .ok (items, rest) => .ok (item :: items, rest)
        | .ok _ => malformed

/-- The entries of an inline table up to its closing brace, after the entries `read`; nothing
goes below the paths `frozen`. -/
def readEntries (room : Nat) :
    Nat → Table Toml → List (List String) → List Char → Reading (Table Toml)
  | 0, _, _, _ => malformed
  | fuel + 1, read, frozen, text =>
    match readKey text with
    | .error e => .error e
    | .ok (path, '=' :: rest) =>
      match readValueFrom room fuel (skipGaps rest) with
      | .error e => .error e
      | .ok (value, rest) =>
        let extended :=
          if isUnder frozen path then none
          else alterAt? false (putNew? (path.getLastD "") value) path.dropLast read
        match extended with
        | none => malformed
        | some entries =>
          match skipGaps rest with
          | '\x7d' :: rest => .ok (entries, rest)
          | ',' :: rest =>
            readEntries room fuel entries (if value.isContainer then path :: frozen else frozen)
              (skipGaps rest)
          | _ => malformed
    | .ok _ => malformed

end

def readValue (room : Nat) (text : List Char) : Reading Toml :=
  readValueFrom room (text.length + 1) text

/-! ## Documents -/

structure Document where
  tables : Table Toml
  /-- Where statements go. -/
  place : List String
  declared : List (List String)
  frozen : List (List String)
  /-- Paths that dotted keys went through since the last header. -/
  passed : List (List String)

namespace Document

def empty : Document := ⟨[], [], [], [], []⟩

/-- A header closes the paths that dotted keys went through before it. -/
def closePassed (d : Document) : Document :=
  { d with declared := d.passed ++ d.declared, passed := [] }

/-- The header of a table. -/
def openTable? (d : Document) (path : List String) : Option Document :=
  let d := d.closePassed
  if d.declared.contains path || isUnder d.frozen path then none
  else do
    let tables ← alterAt? true some path d.tables
    return { d with tables := tables, place := path, declared := path :: d.declared }

/-- Add a table to the array of tables under a name. -/
def appendTable? (name : String) (t : Table Toml) : Option (Table Toml) :=
  match t.get? name with
  | none => some (t.put name (.array [.table []]))
  | some (.array items) => some (t.put name (.array (items ++ [.table []])))
  | some _ => none

/-- The header of a table in an array: what was declared or frozen below its path belongs to the
table before. -/
def openItem? (d : Document) (path : List String) : Option Document :=
  let d := d.closePassed
  if isUnder d.frozen path then none
  else do
    let below := fun (p : List String) => path.isPrefixOf p
    let tables ← alterAt? true (appendTable? (path.getLastD "")) path.dropLast d.tables
    return { d with
      tables := tables
      place := path
      declared := path :: d.declared.filter (!below ·)
      frozen := d.frozen.filter (!below ·) }

/-- The paths that a dotted key at a place goes through. -/
def through (place path : List String) : List (List String) :=
  (List.range (path.length - 1)).map fun i => place ++ path.take (i + 1)

/-- A key with its value. -/
def assign? (d : Document) (path : List String) (value : Toml) : Option Document :=
  let way := through d.place path
  let parent := d.place ++ path.dropLast
  if way.any d.declared.contains || isUnder d.frozen parent then none
  else do
    let tables ← alterAt? true (putNew? (path.getLastD "") value) parent d.tables
    return { d with
      tables := tables
      passed := way ++ d.passed
      frozen := if value.isContainer then (d.place ++ path) :: d.frozen else d.frozen }

end Document

def orMalformed {α : Type} : Option α → Except ReadError α
  | some a => .ok a
  | none => malformed

/-- A header or a key with its value, and the document with it. -/
def readStatement (room : Nat) (d : Document) (text : List Char) :
    Except ReadError (Document × List Char) :=
  match text with
  | '[' :: '[' :: rest => do
    let (path, rest) ← readKey (skipGaps rest)
    let d ← orMalformed (d.openItem? path)
    if startsWith "]]" rest then return (d, rest.drop 2) else malformed
  | '[' :: rest => do
    let (path, rest) ← readKey (skipGaps rest)
    let d ← orMalformed (d.openTable? path)
    if startsWith "]" rest then return (d, rest.drop 1) else malformed
  | _ => do
    let (path, rest) ← readKey text
    match rest with
    | '=' :: rest =>
      let (value, rest) ← readValue room (skipGaps rest)
      let d ← orMalformed (d.assign? path value)
      return (d, rest)
    | _ => malformed

/-- The statements of a text, at most one a line. Every line takes a character, so `fuel` need
not exceed the length of the text by more than one. -/
def readLines (room : Nat) : Nat → Document → List Char → Except ReadError Document
  | 0, _, _ => malformed
  | fuel + 1, d, text =>
    match skipGaps text with
    | [] => .ok d
    | '\n' :: rest => readLines room fuel d rest
    | c :: rest => do
      let (d, rest) ← if c = '#' then pure (d, c :: rest) else readStatement room d (c :: rest)
      let rest ← skipComment (skipGaps rest)
      match rest with
      | [] => return d
      | '\n' :: rest => readLines room fuel d rest
      | _ => malformed

/-- Line feeds for pairs of a carriage return and a line feed. -/
def joinNewlines (text : List Char) : List Char :=
  (text.foldr
    (fun c (next, out) => (c, if c = '\r' ∧ next = '\n' then out else c :: out))
    ('\x00', [])).2

/-- The tables a text describes, read with some room on the stack. -/
def read (room : Nat) (text : List Char) : Except ReadError (Table Toml) :=
  let text := joinNewlines text
  (readLines room (text.length + 1) .empty text).map Document.tables

end RepoSurvey.Toml
