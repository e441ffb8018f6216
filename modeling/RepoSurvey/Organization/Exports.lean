import RepoSurvey.Import.Literal

/-!
# Export statements

Counts of the export statements of a source text.
-/

namespace RepoSurvey.Organization

open Pattern

/-- An export of what another file or package exports. -/
def reexport : Pattern :=
  seqs ["export", blanks1, Import.exportedNames, blanks1, "from", blanks1, quote]

def reexports (text : List Char) : Nat := reexport.count text

def defaultExport : Pattern := seqs ["export", blanks1, "default", CharSet.blank]

def hasDefaultExport (text : List Char) : Bool := defaultExport.occursIn text

/-- The words that open a declaration. -/
def declarationWords : Pattern :=
  alts ["function", "class", "const", "let", "var", "enum", "type", "interface"]

def namedExport : Pattern :=
  seqs ["export", blanks1, declarationWords, blanks1, CharSet.word]

def namedExports (text : List Char) : Nat := namedExport.count text

end RepoSurvey.Organization
