import RepoSurvey.Validation.Checked

/-!
# Figures on the organization of the code
-/

namespace RepoSurvey

structure OrganizationStats where
  sourceFiles : Int
  directoryDepth : Int
  /-- How many files follow each naming convention. -/
  conventions : Table Int
  circularDependencies : Int
  deriving DecidableEq, Repr

namespace OrganizationStats

def sourceFilesName : FieldName := ⟨"totalSourceFiles", "total_source_files"⟩

def directoryDepthName : FieldName := ⟨"maxDirectoryDepth", "max_directory_depth"⟩

def conventionsName : FieldName := ⟨"namingConventions", "naming_conventions"⟩

def circularDependenciesName : FieldName :=
  ⟨"circularDependencyCount", "circular_dependency_count"⟩

def check (j : Json) : Checked OrganizationStats :=
  Checked.record "CodeOrganizationStats" (fun members =>
    mk <$> sourceFilesName.orElse 0 Checked.integer members
      <*> directoryDepthName.orElse 0 Checked.integer members
      <*> conventionsName.orElse [] (Checked.tableOf Checked.integer) members
      <*> circularDependenciesName.orElse 0 Checked.integer members) j

def toJson (s : OrganizationStats) : Json :=
  .obj [("totalSourceFiles", .int s.sourceFiles), ("maxDirectoryDepth", .int s.directoryDepth),
    ("namingConventions", .obj (s.conventions.map fun (name, n) => (name, .int n))),
    ("circularDependencyCount", .int s.circularDependencies)]

end OrganizationStats

end RepoSurvey
