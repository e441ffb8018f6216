import RepoSurvey.Catalog.Domain
import RepoSurvey.Number.Numeral
import RepoSurvey.Path
import RepoSurvey.Pattern.Search
import RepoSurvey.Table
import RepoSurvey.Text.Quoted

/-!
# Rules

A rule names a domain, the files it applies to and the patterns that betray code of that domain
in a line.

* `FileGlob.holds`: the shapes of file names a rule may ask for;
* `Rule.appliesTo`: the rules for a file;
* `Catalog.validate` finds the first fault of a list of rules;
* `Catalog.byId`, `Catalog.find?`: the rules under their ids.
-/

namespace RepoSurvey

/-- A shape of file names: an asterisk and a suffix, or a whole name. Two asterisks and a slash
may stand before it and say that the directory does not matter, which it never does. -/
structure FileGlob where
  text : String
  deriving DecidableEq, Repr

namespace FileGlob

/-- The shape without the leading asterisks and slash. -/
def core (g : FileGlob) : List Char :=
  let chars := g.text.toList
  if "**/".toList.isPrefixOf chars then chars.drop 3 else chars

def holds (g : FileGlob) (path : Path) : Bool :=
  match g.core with
  | '*' :: '.' :: suffix => Name.suffix path.name == String.ofList ('.' :: suffix)
  | name => path.name == String.ofList name

end FileGlob

structure Rule where
  id : String
  domain : String
  description : String
  files : List FileGlob
  code : List Pattern
  confidence : Numeral

def Rule.appliesTo (r : Rule) (path : Path) : Bool := r.files.any (·.holds path)

/-- A way in which a list of rules is at fault, with the id of the rule. -/
inductive CatalogError
  | duplicateId (id : String)
  | unknownDomain (id domain : String)
  | confidenceOutOfRange (id : String) (confidence : Numeral)
  | withoutPatterns (id : String)
  deriving DecidableEq, Repr

def CatalogError.message : CatalogError → String
  | .duplicateId id => "Duplicate pattern id: " ++ id
  | .unknownDomain id domain =>
    "Pattern " ++ id ++ " has unknown domain " ++ String.ofList (Text.quoted domain.toList)
  | .confidenceOutOfRange id confidence =>
    "Pattern " ++ id ++ " confidence out of range: " ++ confidence.text
  | .withoutPatterns id => "Pattern " ++ id ++ " needs file and code patterns"

namespace Catalog

/-- The first fault of a rule, given the ids before it. -/
def fault? (seen : List String) (r : Rule) : Option CatalogError :=
  if seen.contains r.id then some (.duplicateId r.id)
  else if !domains.contains r.domain then some (.unknownDomain r.id r.domain)
  else if !r.confidence.inUnitInterval then some (.confidenceOutOfRange r.id r.confidence)
  else if r.files.isEmpty || r.code.isEmpty then some (.withoutPatterns r.id)
  else none

/-- The first fault of the rules that follow those with the ids `seen`. -/
def faultFrom? (seen : List String) : List Rule → Option CatalogError
  | [] => none
  | r :: rest =>
    match fault? seen r with
    | some e => some e
    | none => faultFrom? (r.id :: seen) rest

def validate (rules : List Rule) : Except CatalogError Unit :=
  match faultFrom? [] rules with
  | some e => .error e
  | none => .ok ()

/-- The rules under their ids; of rules with the same id the last one counts. -/
def byId (rules : List Rule) : Table Rule := Table.ofEntries (rules.map fun r => (r.id, r))

/-- The rule under an id, if there is one. -/
def find? (rules : List Rule) (id : String) : Option Rule := (byId rules).get? id

def inDomain (rules : List Rule) (domain : String) : List Rule :=
  rules.filter fun r => r.domain == domain

def applicable (rules : List Rule) (path : Path) : List Rule := rules.filter (·.appliesTo path)

end Catalog

end RepoSurvey
