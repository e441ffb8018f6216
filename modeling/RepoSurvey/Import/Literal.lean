import RepoSurvey.Pattern.Search

/-!
# Import literals

The relative paths that a source text imports, found by the shape of the statements.

* `Import.patterns`: the shapes, each with the path captured;
* `Import.literals`: the paths, shape by shape.
-/

namespace RepoSurvey.Import

open Pattern

/-- A path that starts in the directory of the file or in the one above, in quotes. -/
def quotedPath : Pattern :=
  seqs [quote,
    capture (seqs [.repeated (.single '.') 1 (some 2) .longest, "/", plus (.noneOf "'\"`\n")]),
    quote]

/-- `import … from` a path, or `import` and a path. -/
def fromStatement : Pattern :=
  seqs ["import", blanks1,
    optional (seqs [.repeated (.noneOf ";") 0 none .shortest, blanks1, "from", blanks1]),
    quotedPath]

/-- An import that looks like a call. -/
def importCall : Pattern := seqs ["import", blanks, "(", blanks, quotedPath]

def requireCall : Pattern := seqs ["require", blanks, "(", blanks, quotedPath, blanks, ")"]

/-- Everything, or a list of names in braces. -/
def exportedNames : Pattern :=
  alts ["*", seqs ["\x7b", star (.noneOf "\x7d"), "\x7d"]]

/-- An export of what another file exports. -/
def exportFrom : Pattern :=
  seqs ["export", blanks1, exportedNames, blanks1, "from", blanks1, quotedPath]

def patterns : List Pattern := [fromStatement, importCall, requireCall, exportFrom]

def literals (text : List Char) : List String :=
  patterns.flatMap fun p => (p.findAll text).map fun m => m.text 0

end RepoSurvey.Import
