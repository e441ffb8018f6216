/-!
# Labels

Nodes that are texts or numbers. A number and the text that spells it are different nodes with
the same label.
-/

namespace RepoSurvey

inductive Label
  | name (s : String)
  | number (n : Int)
  deriving DecidableEq, Repr

def Label.text : Label → String
  | .name s => s
  | .number n => toString n

end RepoSurvey
