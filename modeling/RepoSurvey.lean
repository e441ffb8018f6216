import RepoSurvey.Catalog.Detect
import RepoSurvey.Catalog.Domain
import RepoSurvey.Catalog.Rule
import RepoSurvey.Catalog.Rules
import RepoSurvey.CommandLine
import RepoSurvey.Config.Basic
import RepoSurvey.Config.Environment
import RepoSurvey.Design.Analysis
import RepoSurvey.Design.Layer
import RepoSurvey.Disk.Basic
import RepoSurvey.Disk.FileTree
import RepoSurvey.Disk.Ignore
import RepoSurvey.Disk.Lookup
import RepoSurvey.Disk.Resolve
import RepoSurvey.Disk.Walk
import RepoSurvey.Error
import RepoSurvey.Graph.Circular
import RepoSurvey.Graph.CycleSearch
import RepoSurvey.Graph.Digraph
import RepoSurvey.Graph.Label
import RepoSurvey.Import.Graph
import RepoSurvey.Import.Literal
import RepoSurvey.Import.Resolve
import RepoSurvey.Json.Basic
import RepoSurvey.Json.Parser
import RepoSurvey.Json.Printer
import RepoSurvey.Main
import RepoSurvey.Manifest.Basic
import RepoSurvey.Manifest.Dependencies
import RepoSurvey.Manifest.Detector
import RepoSurvey.Manifest.PackageName
import RepoSurvey.Manifest.Requirement
import RepoSurvey.NameSet
import RepoSurvey.Number.Binary64
import RepoSurvey.Number.Numeral
import RepoSurvey.Number.Reading
import RepoSurvey.Organization.Analysis
import RepoSurvey.Organization.Checks
import RepoSurvey.Organization.Exports
import RepoSurvey.Organization.Inventory
import RepoSurvey.Organization.Naming
import RepoSurvey.Organization.Nesting
import RepoSurvey.Path
import RepoSurvey.Pattern.Basic
import RepoSurvey.Pattern.FirstChar
import RepoSurvey.Pattern.Search
import RepoSurvey.Progress
import RepoSurvey.Report.DesignLayers
import RepoSurvey.Report.Detection
import RepoSurvey.Report.Finding
import RepoSurvey.Report.LineRange
import RepoSurvey.Report.OrganizationStats
import RepoSurvey.Report.Result
import RepoSurvey.Report.Workspace
import RepoSurvey.Skip
import RepoSurvey.SourceFile
import RepoSurvey.Survey
import RepoSurvey.Table
import RepoSurvey.Text.Blank
import RepoSurvey.Text.CodeRange
import RepoSurvey.Text.Digit
import RepoSurvey.Text.Lines
import RepoSurvey.Text.Printable
import RepoSurvey.Text.Quoted
import RepoSurvey.Text.Upper
import RepoSurvey.Text.Utf8
import RepoSurvey.Text.Word
import RepoSurvey.Toml.Basic
import RepoSurvey.Toml.Lexeme
import RepoSurvey.Toml.Parser
import RepoSurvey.Validation.Checked
import RepoSurvey.Validation.Failure
import RepoSurvey.Proofs.Graph.ClosedWalk
import RepoSurvey.Proofs.Graph.SearchInvariant
import RepoSurvey.Proofs.Graph.CycleSoundness
import RepoSurvey.Proofs.Disk.Named
import RepoSurvey.Proofs.Disk.Preorder
import RepoSurvey.Proofs.Disk.Walk
import RepoSurvey.Proofs.Disk.Listing
import RepoSurvey.Proofs.Disk.Agreement
import RepoSurvey.Proofs.Disk.Resolve
import RepoSurvey.Proofs.Disk.Subtree
import RepoSurvey.Proofs.Graph.CycleCompleteness
import RepoSurvey.Proofs.Graph.CycleKey
import RepoSurvey.Proofs.Graph.RecursiveSearch
import RepoSurvey.Proofs.Graph.SearchRounds
import RepoSurvey.Proofs.Traversal
import RepoSurvey.Proofs.Import.Graph
import RepoSurvey.Proofs.Import.Agreement
import RepoSurvey.Proofs.Import.RelativeLiteral
import RepoSurvey.Proofs.Pattern.Apart
import RepoSurvey.Proofs.Import.Literals
import RepoSurvey.Proofs.Organization.CircularImports
import RepoSurvey.Proofs.Organization.Findings
import RepoSurvey.Proofs.Organization.Distinct
import RepoSurvey.Proofs.Path.Relative
import RepoSurvey.Proofs.Disk.Lookup
import RepoSurvey.Proofs.Validation.Checked
import RepoSurvey.Proofs.Validation.ReadingBack
import RepoSurvey.Proofs.Report.WrittenForm
import RepoSurvey.Proofs.Catalog.Detect
import RepoSurvey.Proofs.Catalog.Validation
import RepoSurvey.Proofs.Manifest.Detector
import RepoSurvey.Proofs.Design.Analysis
import RepoSurvey.Proofs.Design.Findings
import RepoSurvey.Proofs.Design.Distinct
import RepoSurvey.Proofs.Survey.Failures
import RepoSurvey.Proofs.Survey.FirstFailure
import RepoSurvey.Proofs.Survey.Places
import RepoSurvey.Proofs.Survey.Agreement
import RepoSurvey.Proofs.Survey.Detections
import RepoSurvey.Proofs.Survey.Distinct
import RepoSurvey.Proofs.Survey.Provenance
import RepoSurvey.Proofs.Survey.Workspaces
import RepoSurvey.Proofs.Config.Values
import RepoSurvey.Proofs.CommandLine.Agreement
import RepoSurvey.Proofs.Disk.Correspondence
import RepoSurvey.Proofs.Survey.Congruence
import RepoSurvey.Proofs.Text.LineEnds
import RepoSurvey.Proofs.Survey.Recognition
import RepoSurvey.Proofs.Survey.LineEnds
import RepoSurvey.Proofs.Survey.Oversized
import RepoSurvey.Proofs.Survey.Unrecognized
import RepoSurvey.Proofs.Organization.Thresholds
import RepoSurvey.Proofs.Pattern.Ends
import RepoSurvey.Proofs.Import.Shape
import RepoSurvey.Proofs.Import.StaticImport
import RepoSurvey.Proofs.Import.Module
import RepoSurvey.Proofs.Survey.Subdirectory
import RepoSurvey.Proofs.Json.Strings
import RepoSurvey.Proofs.Json.Numbers
import RepoSurvey.Proofs.Json.RoundTrip
import RepoSurvey.Proofs.Report.Faithful
import RepoSurvey.Proofs.Survey.Legible
import RepoSurvey.Proofs.CommandLine.Output
import RepoSurvey.Proofs.Graph.Order
import RepoSurvey.Proofs.Workers
import RepoSurvey.Proofs.Import.FileGraph
import RepoSurvey.Proofs.Catalog.FirstMatches
import RepoSurvey.Proofs.Text.ByteLines
import RepoSurvey.Proofs.Survey.StrayBytes
import RepoSurvey.Proofs.Pattern.Lines
import RepoSurvey.Proofs.Pattern.Preferred
import RepoSurvey.Proofs.Manifest.ModuleFile
import RepoSurvey.Proofs.Manifest.RequiredModules
import RepoSurvey.Proofs.Manifest.Requirement
import RepoSurvey.Proofs.Manifest.Visits
import RepoSurvey.Proofs.Table
import RepoSurvey.Proofs.Toml.Distinct
import RepoSurvey.Proofs.Manifest.Pyproject
import RepoSurvey.Proofs.Json.Encoding
import RepoSurvey.Proofs.Manifest.PackageJson
import RepoSurvey.Proofs.Design.Upward
import RepoSurvey.Proofs.Organization.Inventory
import RepoSurvey.Proofs.Skip.Extras
import RepoSurvey.Proofs.Design.Reported
import RepoSurvey.Proofs.Organization.Naming
import RepoSurvey.Proofs.Organization.Reexports
import RepoSurvey.Proofs.Number.IntegerLiteral
import RepoSurvey.Proofs.Config.Environment
