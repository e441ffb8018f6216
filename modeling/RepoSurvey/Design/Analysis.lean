import RepoSurvey.Design.Layer
import RepoSurvey.Manifest.PackageName
import RepoSurvey.Pattern.Search
import RepoSurvey.Report.DesignLayers
import RepoSurvey.Report.Finding
import RepoSurvey.Report.Workspace

/-!
# Analysis of the design system

Workspaces are sorted into layers: tokens at the bottom, then config, then user interface, with
applications on top. Dependencies should point down only.

* `Design.missingLayers`: gaps in the stack;
* `Design.violations`: dependencies that point up;
* `Design.presetFindings`, `Design.colorFindings`: checks of style configs;
* `Design.analyze`: all of them, and the summary.
-/

namespace RepoSurvey.Design

def domain : String := "design-system"

/-- The directories of the workspaces of each layer. -/
structure Layers where
  tokens : List String
  config : List String
  ui : List String
  apps : List String
  deriving DecidableEq, Repr

def rootsIn (layer : Layer) (workspaces : List Workspace) : List String :=
  (workspaces.filter fun w => Layer.ofRoot? w.root = some layer).map Workspace.root

def Layers.of (workspaces : List Workspace) : Layers where
  tokens := rootsIn .tokens workspaces
  config := rootsIn .config workspaces
  ui := rootsIn .ui workspaces
  apps := rootsIn .app workspaces

/-! ## Missing layers -/

def missingLayer (description : String) (paths : List String) (severity : Severity) : Finding where
  kind := .missingLayer
  domain := domain
  description := description
  paths := paths
  severity := severity
  metadata := none

def noTokens (l : Layers) : Finding :=
  missingLayer "Monorepo has UI/config packages but no design token package. Design values lack a single source of truth."
    (l.ui ++ l.config) .critical

def noConfig (l : Layers) : Finding :=
  missingLayer "Monorepo has token and UI packages but no shared Tailwind config package. Each app may duplicate the token-to-Tailwind mapping."
    (l.tokens ++ l.ui) .warning

def noUi (l : Layers) : Finding :=
  missingLayer "Monorepo has token package but no shared UI component library. Components may be duplicated across apps."
    l.tokens .warning

/-- Gaps between the layers that are there. -/
def missingLayers (l : Layers) : List Finding :=
  let hasTokens := !l.tokens.isEmpty
  let hasConfig := !l.config.isEmpty
  let hasUi := !l.ui.isEmpty
  (if !hasTokens && (hasConfig || hasUi) then [noTokens l] else [])
    ++ (if hasTokens && !hasConfig && hasUi then [noConfig l] else [])
    ++ (if hasTokens && !hasUi then [noUi l] else [])

/-! ## Dependencies that point up -/

/-- The workspaces that those of a layer may not depend on. -/
def forbidden (l : Layers) : Layer → List String
  | .tokens => l.config ++ l.ui
  | .config => l.ui
  | .ui => l.apps
  | .app => []

def violationText (source target : String) : Layer → String
  | .tokens => s!"Token package \"{source}\" depends on \"{target}\" → tokens should be the bottom layer with no upward dependencies."
  | .config => s!"Config package \"{source}\" depends on UI package \"{target}\" → config should not depend on UI."
  | _ => s!"UI package \"{source}\" depends on app \"{target}\" → UI should not depend on apps."

def violation (source target : String) (layer : Layer) : Finding where
  kind := .dependencyViolation
  domain := domain
  description := violationText source target layer
  paths := [source, target]
  severity := .critical
  metadata := none

/-- The place of a workspace on the disk. -/
def placeOf (root : Path) (workspace : String) : Path := root.join (Path.ofText workspace)

/-- Those of some workspaces that have a certain package name. -/
def namedAmong (disk : Disk) (root : Path) (name : String) :
    List String → Except SurveyError (List String)
  | [] => .ok []
  | target :: rest => do
    let found ← Manifest.packageName? disk (placeOf root target)
    let more ← namedAmong disk root name rest
    return if found = some name then target :: more else more

/-- The violations of one workspace, by dependency and then by target. -/
def violationsOf (disk : Disk) (root : Path) (l : Layers) (w : Workspace) :
    Except SurveyError (List Finding) :=
  match Layer.ofRoot? w.root with
  | none => .ok []
  | some layer => do
    let found ← w.dependencies.mapM fun (name, _) => namedAmong disk root name (forbidden l layer)
    return found.flatten.map fun target => violation w.root target layer

def violations (disk : Disk) (root : Path) (l : Layers) (workspaces : List Workspace) :
    Except SurveyError (List Finding) := do
  return (← workspaces.mapM (violationsOf disk root l)).flatten

/-! ## Style configs -/

def styleConfigNames : List String :=
  ["tailwind.config.ts", "tailwind.config.js", "tailwind.config.mjs", "tailwind.config.cjs"]

/-- The path of the style config of a workspace from the top, if it has one. -/
def styleConfig? (disk : Disk) (root : Path) (workspace : String) :
    Except SurveyError (Option String) := do
  let directory := Path.ofText workspace
  let found ← disk.firstFile? (root.join directory) styleConfigNames
  return found.map fun name => (directory.child name).text

/-- The style config of a workspace with its text, if it has one that can be read. -/
def styleConfigText? (disk : Disk) (root : Path) (workspace : String) :
    Except SurveyError (Option (String × List Char)) := do
  let config ← styleConfig? disk root workspace
  return config.bind fun path =>
    (disk.readLenient? (placeOf root path)).map fun text => (path, text)

/-- A colour in hexadecimal digits, in quotes. -/
def colorPattern : Pattern :=
  .seqs [Pattern.quote, "#", .repeated ⟨Text.isHexDigit⟩ 3 (some 8) .longest, Pattern.quote]

def styleFinding (kind : FindingKind) (description path : String) : Finding where
  kind := kind
  domain := domain
  description := description
  paths := [path]
  severity := .warning
  metadata := none

def missingPreset (app path : String) : Finding :=
  styleFinding .missingSharedPreset
    s!"App \"{app}\" tailwind.config does not use shared presets, may duplicate design values."
    path

def hardcodedColors (workspace path : String) : Finding :=
  styleFinding .hardcodedConfigValues
    s!"Tailwind config in \"{workspace}\" contains hardcoded hex colors. Reference CSS variables or token imports instead."
    path

/-- What a check says about the style config of each of some workspaces. -/
def styleFindings (disk : Disk) (root : Path) (isFault : List Char → Bool)
    (report : String → String → Finding) :
    List String → Except SurveyError (List Finding)
  | [] => .ok []
  | workspace :: rest => do
    let config ← styleConfigText? disk root workspace
    let more ← styleFindings disk root isFault report rest
    match config with
    | none => return more
    | some (path, text) => return if isFault text then report workspace path :: more else more

/-- Applications whose style config does not use presets although there is a shared one. -/
def presetFindings (disk : Disk) (root : Path) (l : Layers) : Except SurveyError (List Finding) :=
  if l.config.isEmpty then .ok []
  else
    styleFindings disk root (fun text => !Text.containsText "presets".toList text) missingPreset
      l.apps

/-- Workspaces whose style config writes colours out. -/
def colorFindings (disk : Disk) (root : Path) (workspaces : List Workspace) :
    Except SurveyError (List Finding) :=
  styleFindings disk root colorPattern.occursIn hardcodedColors (workspaces.map Workspace.root)

/-! ## All together -/

def documentationNames : List String := ["docs", "documentation"]

def isDocumentation (w : Workspace) : Bool :=
  documentationNames.contains (Path.ofText w.root).name

def summary (l : Layers) (workspaces : List Workspace) : DesignLayers where
  hasTokens := !l.tokens.isEmpty
  hasConfig := !l.config.isEmpty
  hasUi := !l.ui.isEmpty
  hasDocs := workspaces.any isDocumentation
  tokenPaths := l.tokens
  configPaths := l.config
  uiPaths := l.ui

structure Analysis where
  findings : List Finding
  layers : DesignLayers

/-- The analysis of some workspaces; layers can only be missing where there are several. -/
def analyze (disk : Disk) (root : Path) (workspaces : List Workspace) :
    Except SurveyError Analysis := do
  let l := Layers.of workspaces
  let missing := if workspaces.length > 1 then missingLayers l else []
  let upward ← violations disk root l workspaces
  let presets ← presetFindings disk root l
  let colors ← colorFindings disk root workspaces
  return ⟨missing ++ upward ++ presets ++ colors, summary l workspaces⟩

end RepoSurvey.Design
