import RepoSurvey.Disk.Basic
import RepoSurvey.Error
import RepoSurvey.Path
import RepoSurvey.Text.Lines
import RepoSurvey.Text.Utf8

/-!
# Looking up paths

A path is looked up segment by segment; symbolic links are followed, `linkLimit` of them at most.
Every directory on the way must be one that may be searched.

* `Disk.lookup`: what a path leads to;
* `Disk.isFile`: does it lead to a file? A name that is too long is an error, but only where the
  directory it is looked up in exists, and so is a directory that may not be searched;
* `Disk.readStrict?`, `Disk.readLenient?`: the text of a file.
-/

namespace RepoSurvey.Disk

/-- The most bytes of a name. -/
def nameLimit : Nat := 255

/-- The most bytes of a path. -/
def pathLimit : Nat := 4095

/-- The most links on the way to what a path leads to. -/
def linkLimit : Nat := 40

/-- What a path leads to. -/
inductive Found
  /-- A file with its bytes, if they may be read. -/
  | file (bytes : Option (List UInt8))
  /-- A directory, by its own path, which has no links in it. -/
  | directory (place : List String)
  | absent
  | nameTooLong
  /-- A directory on the way may not be searched. -/
  | denied
  | tooManyLinks
  deriving DecidableEq, Repr

namespace Found

def isFile : Found → Bool
  | .file _ => true
  | _ => false

/-- Why what a path leads to cannot be told, if it cannot. -/
def error? : Found → Option SurveyError
  | .nameTooLong => some .nameTooLong
  | .denied => some .permissionDenied
  | _ => none

end Found

/-- Where going down a path ends: at something that is not a link, at a link with more of the
path behind it, or nowhere. -/
inductive Descent
  | reached (found : Found)
  | link (place : List String) (target : String) (rest : List String)
  deriving DecidableEq, Repr

/-- Go down from a directory up to the first link. -/
def descend (disk : Disk) (place : List String) : List String → Descent
  | [] => .reached (.directory place)
  | name :: rest =>
    if !(disk.rights place).search then .reached .denied
    else if name = "." then descend disk place rest
    else if name = ".." then descend disk place.dropLast rest
    else if name.utf8ByteSize > nameLimit then .reached .nameTooLong
    else
      match disk.tree.at? (place ++ [name]) with
      | none => .reached .absent
      | some (.file bytes) =>
        if rest.isEmpty then .reached (.file (disk.contents? (place ++ [name]) bytes))
        else .reached .absent
      | some (.link target) => .link place target rest
      | some (.directory _) => descend disk (place ++ [name]) rest

/-- The segments of a link's target. A slash at its end asks for a directory. -/
def targetSegments (target : String) : List String :=
  (splitSlashes target).filter (· != "") ++ (if target.endsWith "/" then ["."] else [])

/-- Follow a path from a directory through at most `links` links. -/
def follow (disk : Disk) : Nat → List String → List String → Found
  | links, place, path =>
    match descend disk place path with
    | .reached found => found
    | .link place target rest =>
      match links with
      | 0 => .tooManyLinks
      | links + 1 =>
        follow disk links (if target.startsWith "/" then [] else place)
          (targetSegments target ++ rest)

/-- What an absolute path leads to. -/
def lookup (disk : Disk) (path : Path) : Found :=
  if path.hasNull then .absent
  else if path.text.utf8ByteSize > pathLimit then .nameTooLong
  else follow disk linkLimit [] path.segments

def isFile (disk : Disk) (path : Path) : Except SurveyError Bool :=
  match (lookup disk path).error? with
  | some e => .error e
  | none => .ok (lookup disk path).isFile

def bytes? (disk : Disk) (path : Path) : Option (List UInt8) :=
  match lookup disk path with
  | .file bytes => bytes
  | _ => none

/-- The directory that a path leads to, by its own path. -/
def directory? (disk : Disk) (path : Path) : Option (List String) :=
  match lookup disk path with
  | .directory place => some place
  | _ => none

/-- Does a path lead to a directory that may be listed? -/
def lists (disk : Disk) (path : Path) : Bool :=
  (disk.directory? path).any fun place => (disk.rights place).read

/-- The text of a file that is well-formed UTF-8, with line feeds for all line ends. -/
def readStrict? (disk : Disk) (path : Path) : Option (List Char) :=
  ((disk.bytes? path).bind Utf8.strict).map Text.unixNewlines

/-- The text of a file, with U+FFFD for what is not UTF-8 and line feeds for all line ends. -/
def readLenient? (disk : Disk) (path : Path) : Option (List Char) :=
  (disk.bytes? path).map fun bytes => Text.unixNewlines (Utf8.lenient bytes)

/-- The first of some names in a directory that is a file. -/
def firstFile? (disk : Disk) (directory : Path) : List String → Except SurveyError (Option String)
  | [] => .ok none
  | name :: rest => do
    if ← disk.isFile (directory.child name) then return some name
    else firstFile? disk directory rest

end RepoSurvey.Disk
