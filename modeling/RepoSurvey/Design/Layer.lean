import RepoSurvey.Path
import RepoSurvey.Text.Upper

/-!
# Layers of a design system

A workspace belongs to a layer by words in the name of its directory; the lowest layer with a
word in it wins. Workspaces below `apps` without such a word are applications.
-/

namespace RepoSurvey

inductive Layer
  | tokens
  | config
  | ui
  | app
  deriving DecidableEq, Repr

namespace Layer

def text : Layer → String
  | .tokens => "tokens"
  | .config => "config"
  | .ui => "ui"
  | .app => "app"

def tokenWords : List String := ["design-tokens", "tokens", "theme-tokens", "primitives"]

def configWords : List String := ["tailwind-config", "shared-config", "config"]

def uiWords : List String := ["ui", "components", "design-system", "component-library"]

/-- Does one of the words stand in the name, in whatever case? -/
def mentions (words : List String) (name : String) : Bool :=
  let lower := Text.lowerForKeywords name.toList
  words.any fun w => Text.containsText w.toList lower

def ofRoot? (root : String) : Option Layer :=
  let name := (Path.ofText root).name
  if mentions tokenWords name then some .tokens
  else if mentions configWords name then some .config
  else if mentions uiWords name then some .ui
  else if "apps/".toList.isPrefixOf root.toList then some .app
  else none

end Layer

end RepoSurvey
