import RepoSurvey.Config.Basic
import RepoSurvey.Organization.Exports
import RepoSurvey.Organization.Inventory
import RepoSurvey.Organization.Nesting
import RepoSurvey.Report.Finding

/-!
# Checks on the organization of the code

Each check reads the inventory and, where it looks into files, their texts. A count beyond its
threshold is a warning, beyond twice the threshold it is critical.
-/

namespace RepoSurvey.Organization

def domain : String := "code-organization"

/-- The texts of the scripts that can be read and are not too long, in the order of the
inventory. -/
abbrev Contents := List (List String × List Char)

def severityOf (count threshold : Nat) : Severity :=
  if count > threshold * 2 then .critical else .warning

/-! ## Directories with too many files -/

def godDirectory (threshold : Nat) (directory : String) (files : List String) : Finding where
  kind := .godDirectory
  domain := domain
  description := s!"Directory \"{directory}\" contains {files.length} source files (threshold: {threshold}). Split by feature or domain."
  paths := [directory]
  severity := severityOf files.length threshold
  metadata := some [("fileCount", .ofNat files.length), ("threshold", .ofNat threshold)]

def godDirectories (i : Inventory) (threshold : Nat) : List Finding :=
  (i.filesByDirectory.filter fun (_, files) => files.length > threshold).map
    fun (directory, files) => godDirectory threshold directory files

/-! ## Mixed naming -/

/-- The number of files for each convention, in the order in which the conventions appear. -/
def conventionCounts (files : List String) : Table Nat :=
  files.foldl (fun counts name => Inventory.countConvention name counts) []

def mixedNaming (directory : String) (significant : Table Nat) : Finding where
  kind := .mixedNamingConvention
  domain := domain
  description :=
    let summary := ", ".intercalate (significant.map fun (name, n) => s!"{name} ({n} files)")
    s!"Directory \"{directory}\" uses mixed naming conventions: {summary}. Choose one convention and enforce it."
  paths := [directory]
  severity := .warning
  metadata := some [("conventions", .obj (significant.map fun (name, n) => (name, .ofNat n)))]

/-- A finding on a directory in which two conventions have enough files each. -/
def mixedNamingOf? (minFiles minBucket : Nat) (directory : String) (files : List String) :
    Option Finding :=
  let significant := (conventionCounts files).filter fun (_, n) => n ≥ minBucket
  if files.length < minFiles || significant.length < 2 then none
  else some (mixedNaming directory significant)

def mixedNamings (i : Inventory) (minFiles minBucket : Nat) : List Finding :=
  i.filesByDirectory.filterMap fun (directory, files) =>
    mixedNamingOf? minFiles minBucket directory files

/-! ## Deep nesting -/

def deepNesting (most depth : Nat) (directory : String) : Finding where
  kind := .deepNesting
  domain := domain
  description := s!"Directory \"{directory}\" is {depth} levels deep (max: {most}). Consider flattening or using path aliases."
  paths := [directory]
  severity := .warning
  metadata := some [("depth", .ofNat depth), ("threshold", .ofNat most)]

def deepNestings (i : Inventory) (most : Nat) : List Finding :=
  (i.directories.filter fun path => nestingOf path > most).map
    fun path => deepNesting most (nestingOf path) (Path.joined path)

/-! ## Index files with too many re-exports -/

def isIndex (path : List String) : Bool := Name.stem (path.getLastD "") == "index"

def barrelBloat (threshold count : Nat) (file : String) : Finding where
  kind := .barrelBloat
  domain := domain
  description := s!"Barrel file \"{file}\" has {count} re-exports (threshold: {threshold}). Consider direct imports or code-splitting."
  paths := [file]
  severity := severityOf count threshold
  metadata := some [("reexportCount", .ofNat count), ("threshold", .ofNat threshold)]

def barrelBloats (contents : Contents) (threshold : Nat) : List Finding :=
  contents.filterMap fun (path, text) =>
    if isIndex path then
      let count := reexports text
      if count > threshold then some (barrelBloat threshold count (Path.joined path)) else none
    else none

/-! ## Directories for odds and ends -/

def catchAllNames : List String := ["utils", "helpers", "common", "shared", "lib"]

def isCatchAll (directory : String) : Bool :=
  catchAllNames.contains (Path.ofText directory).name

def catchAll (threshold : Nat) (directory : String) (files : List String) : Finding where
  kind := .catchAllDirectory
  domain := domain
  description := s!"Catch-all directory \"{directory}\" contains {files.length} files (threshold: {threshold}). Split into domain-specific modules (e.g., utils/date, utils/string, utils/validation)."
  paths := [directory]
  severity := severityOf files.length threshold
  metadata := some [("fileCount", .ofNat files.length), ("threshold", .ofNat threshold)]

def catchAlls (i : Inventory) (threshold : Nat) : List Finding :=
  (i.filesByDirectory.filter fun (directory, files) =>
      isCatchAll directory && files.length > threshold).map
    fun (directory, files) => catchAll threshold directory files

/-! ## Files that mix a default export with named ones -/

def mixedExport (named : Nat) (file : String) : Finding where
  kind := .godDirectory
  domain := domain
  description := s!"File \"{file}\" mixes a default export with {named} named exports. One module, one responsibility: split into separate files."
  paths := [file]
  severity := .info
  metadata := some [("hasDefaultExport", .bool true), ("namedExportCount", .ofNat named),
    ("issue", .str "mixed-export-style")]

def mixedExports (contents : Contents) (fewest : Nat) : List Finding :=
  contents.filterMap fun (path, text) =>
    if isIndex path || !hasDefaultExport text then none
    else
      let named := namedExports text
      if named < fewest then none else some (mixedExport named (Path.joined path))

end RepoSurvey.Organization
