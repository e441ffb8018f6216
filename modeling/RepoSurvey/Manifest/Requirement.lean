import RepoSurvey.Pattern.Search

/-!
# Requirements

A requirement is a package name, extras in brackets that do not matter, and a version
specifier up to a semicolon. An empty specifier stands for any version.
-/

namespace RepoSurvey.Manifest

open Pattern

structure Requirement where
  name : String
  spec : String
  deriving DecidableEq, Repr

/-- The specifier for any version. -/
def anyVersion : String := "*"

def asciiAlphanum : CharSet := ⟨Char.isAlphanum⟩

def nameTail : CharSet := ⟨fun c => c.isAlphanum || c == '.' || c == '_' || c == '-'⟩

def requirementPattern : Pattern :=
  seqs [anchor .textStart, blanks, capture (seqs [asciiAlphanum, star nameTail]), blanks,
    optional (seqs ["[", star (.noneOf "]"), "]"]), blanks, capture (star (.noneOf ";"))]

def requirement? (text : List Char) : Option Requirement :=
  (requirementPattern.matchStart? text).map fun m =>
    let spec := String.ofList (Text.trim (m.capture 1))
    ⟨m.text 0, if spec.isEmpty then anyVersion else spec⟩

end RepoSurvey.Manifest
