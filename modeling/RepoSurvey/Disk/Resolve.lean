import RepoSurvey.Disk.Lookup

/-!
# Resolving the path of a repository

Before a repository is surveyed its path is replaced by the path without links that leads to the
same place. Links are resolved inside each other, each as often as it is met, and what does not
exist is taken for a directory that is empty, so that two dots after it lead back.

A link that leads back to itself is an error here, even where two dots behind it lead out again.

* `Disk.linkAt?`: the target of a link;
* `Disk.resolve`: the path without links;
* `Disk.destination`: what stands there.
-/

namespace RepoSurvey.Disk

/-- The target of the link at a path without links, unless the link cannot be looked at. -/
def linkAt? (disk : Disk) (place : List String) : Option String :=
  if (Path.mk true place).text.utf8ByteSize > pathLimit then none
  else
    match descend disk [] place with
    | .link _ target [] => some target
    | _ => none

/-- Where resolving ends: at a path without links, or at a link that is being resolved already, with
what is left of the path behind it. -/
inductive Resolution
  | place (place : List String)
  | loop (path : List String)
  | tooDeep
  deriving DecidableEq, Repr

/-- Go down a path whose links lead to where `resolveLink` says. -/
def goDown (linkAt? : List String → Option String)
    (resolveLink : List String → String → Resolution) (place : List String) :
    List String → Resolution
  | [] => .place place
  | name :: rest =>
    if name = "." then goDown linkAt? resolveLink place rest
    else if name = ".." then goDown linkAt? resolveLink place.dropLast rest
    else
      match linkAt? (place ++ [name]) with
      | none => goDown linkAt? resolveLink (place ++ [name]) rest
      | some target =>
        match resolveLink (place ++ [name]) target with
        | .place place => goDown linkAt? resolveLink place rest
        | .loop path => .loop (path ++ rest)
        | .tooDeep => .tooDeep

/-- Resolve a path inside the links `opened`, with room on the stack for `depth` more. -/
def resolveFrom (linkAt? : List String → Option String) :
    Nat → List (List String) → List String → List String → Resolution
  | depth, opened, place, path =>
    goDown linkAt?
      (fun link target =>
        if opened.contains link then .loop link
        else
          match depth with
          | 0 => .tooDeep
          | depth + 1 =>
            resolveFrom linkAt? depth (link :: opened)
              (if target.startsWith "/" then [] else link.dropLast) (targetSegments target))
      place path

/-- The path without links that an absolute path stands for. -/
def resolve (disk : Disk) (path : Path) : Except SurveyError Path :=
  if path.hasNull then .error .nullByte
  else
    match resolveFrom disk.linkAt? disk.stack.links [] [] path.segments with
    | .place place => .ok ⟨true, place⟩
    | .loop path => .error (.linkLoop (Path.mk true path).normalize.text)
    | .tooDeep => .error (.tooDeep .call)

/-- What an absolute path leads to once it is resolved. -/
def destination (disk : Disk) (path : Path) : Except SurveyError Found := do
  return disk.lookup (← disk.resolve path)

end RepoSurvey.Disk
