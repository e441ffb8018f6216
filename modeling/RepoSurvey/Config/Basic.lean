import RepoSurvey.NameSet
import RepoSurvey.Validation.Checked

/-!
# Limits of a survey

The thresholds of the checks and the limits on reading files. All of them are positive, save
the radius of context lines, which may be zero; their type says so.
-/

namespace RepoSurvey

abbrev Positive := { n : Nat // 1 ≤ n }

instance (n : Nat) : OfNat Positive (n + 1) := ⟨⟨n + 1, Nat.le_add_left 1 n⟩⟩

structure Config where
  /-- Most source files in a directory. -/
  godDirectory : Positive := ⟨15, by decide⟩
  /-- Deepest nesting of directories. -/
  nestingDepth : Positive := ⟨5, by decide⟩
  /-- Most re-exports of an index file. -/
  barrelBloat : Positive := ⟨10, by decide⟩
  /-- Most files in a directory for odds and ends. -/
  catchAll : Positive := ⟨10, by decide⟩
  /-- Named exports beside a default export that are too many. -/
  namedExports : Positive := ⟨3, by decide⟩
  /-- Fewest files in a directory whose naming is judged. -/
  namingFiles : Positive := ⟨3, by decide⟩
  /-- Fewest files for a naming convention to count. -/
  namingBucket : Positive := ⟨2, by decide⟩
  /-- Most characters of a file that is read. -/
  fileSize : Positive := ⟨500000, by decide⟩
  /-- Lines of context on each side of a match. -/
  contextRadius : Nat := 5
  /-- Files read at a time. -/
  batchSize : Positive := ⟨50, by decide⟩
  /-- Directories passed over, by name or by path. -/
  skipDirs : NameSet := []
  showProgress : Bool := true
  deriving DecidableEq, Repr

namespace Config

def positive (j : Json) : Checked Positive :=
  (Checked.integer j).andThen fun n =>
    if h : 1 ≤ n then .valid ⟨n.toNat, by omega⟩ else Checked.fail (.belowLeast 1)

def natural (j : Json) : Checked Nat := (Checked.integerFrom 0 j).map Int.toNat

def names (j : Json) : Checked NameSet := (Checked.setOf Checked.text j).map NameSet.ofList

/-- A config from named values; what is not given has its default. -/
def ofValues (values : Table Json) : Checked Config :=
  let defaults : Config := {}
  mk <$> (FieldName.same "god_directory_threshold").orElse defaults.godDirectory positive values
    <*> (FieldName.same "max_nesting_depth").orElse defaults.nestingDepth positive values
    <*> (FieldName.same "barrel_bloat_threshold").orElse defaults.barrelBloat positive values
    <*> (FieldName.same "catch_all_threshold").orElse defaults.catchAll positive values
    <*> (FieldName.same "mixed_export_min_named").orElse defaults.namedExports positive values
    <*> (FieldName.same "naming_min_files").orElse defaults.namingFiles positive values
    <*> (FieldName.same "naming_min_bucket").orElse defaults.namingBucket positive values
    <*> (FieldName.same "max_file_size").orElse defaults.fileSize positive values
    <*> (FieldName.same "context_radius").orElse defaults.contextRadius natural values
    <*> (FieldName.same "batch_size").orElse defaults.batchSize positive values
    <*> (FieldName.same "extra_skip_dirs").orElse defaults.skipDirs names values
    <*> (FieldName.same "show_progress").orElse defaults.showProgress Checked.boolean values

def toJson (c : Config) : Json :=
  .obj [("god_directory_threshold", .ofNat c.godDirectory),
    ("max_nesting_depth", .ofNat c.nestingDepth), ("barrel_bloat_threshold", .ofNat c.barrelBloat),
    ("catch_all_threshold", .ofNat c.catchAll), ("mixed_export_min_named", .ofNat c.namedExports),
    ("naming_min_files", .ofNat c.namingFiles), ("naming_min_bucket", .ofNat c.namingBucket),
    ("max_file_size", .ofNat c.fileSize), ("context_radius", .ofNat c.contextRadius),
    ("batch_size", .ofNat c.batchSize), ("extra_skip_dirs", .strings c.skipDirs),
    ("show_progress", .bool c.showProgress)]

end Config

end RepoSurvey
