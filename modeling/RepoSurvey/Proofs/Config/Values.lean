import RepoSurvey.Config.Environment
import RepoSurvey.Proofs.Traversal
import RepoSurvey.Proofs.Validation.Checked

/-!
# Where the fields of a config come from

Every field of a config is read under its own name. Two configs from the same environment differ
only in the fields that are given explicitly.

* `Config.Reads`, `Config.reads_of_ofValues`: each field is checked on its own;
* `Config.eq_of_ofValues`: values that agree give fields that agree;
* `Config.eq_of_ofEnvironment`: the values that the command line gives.
-/

namespace RepoSurvey

variable {values values' : Table Json} {c c' : Config}

theorem FieldName.orElse_congr {α : Type} {f : FieldName} {default : α}
    {check : Json → Checked α} (hwritten : values.get? f.written = values'.get? f.written)
    (hplain : values.get? f.plain = values'.get? f.plain) :
    f.orElse default check values = f.orElse default check values' := by
  rw [orElse, orElse, find?, find?, hwritten, hplain]

namespace Config

/-- A field with a single name gives a value. -/
def Field {α : Type} (values : Table Json) (name : String) (default : α) (check : Json → Checked α)
    (a : α) : Prop :=
  (FieldName.same name).orElse default check values = .valid a

/-- Two readings of a field are the same if its value is. -/
theorem Field.eq {α : Type} {name : String} {default : α} {check : Json → Checked α} {a b : α}
    (ha : Field values name default check a) (hb : Field values' name default check b)
    (h : values.get? name = values'.get? name) : a = b := by
  have hsame : (FieldName.same name).orElse default check values
      = (FieldName.same name).orElse default check values' := FieldName.orElse_congr h h
  rw [Field, hsame] at ha
  rw [Field, ha] at hb
  exact Checked.valid.inj hb

/-- A config reads each of its fields under its own name. -/
structure Reads (values : Table Json) (c : Config) : Prop where
  godDirectory : Field values "god_directory_threshold" ({} : Config).godDirectory positive
    c.godDirectory
  nestingDepth : Field values "max_nesting_depth" ({} : Config).nestingDepth positive
    c.nestingDepth
  barrelBloat : Field values "barrel_bloat_threshold" ({} : Config).barrelBloat positive
    c.barrelBloat
  catchAll : Field values "catch_all_threshold" ({} : Config).catchAll positive c.catchAll
  namedExports : Field values "mixed_export_min_named" ({} : Config).namedExports positive
    c.namedExports
  namingFiles : Field values "naming_min_files" ({} : Config).namingFiles positive c.namingFiles
  namingBucket : Field values "naming_min_bucket" ({} : Config).namingBucket positive
    c.namingBucket
  fileSize : Field values "max_file_size" ({} : Config).fileSize positive c.fileSize
  contextRadius : Field values "context_radius" ({} : Config).contextRadius natural
    c.contextRadius
  batchSize : Field values "batch_size" ({} : Config).batchSize positive c.batchSize
  skipDirs : Field values "extra_skip_dirs" ({} : Config).skipDirs names c.skipDirs
  showProgress : Field values "show_progress" ({} : Config).showProgress Checked.boolean
    c.showProgress

theorem reads_of_ofValues (h : ofValues values = .valid c) : Reads values c := by
  simp only [ofValues, Checked.seq_eq_valid_iff, Checked.map_eq_valid_iff] at h
  -- the last field is the outermost
  obtain ⟨_, _, ⟨_, _, ⟨_, _, ⟨_, _, ⟨_, _, ⟨_, _, ⟨_, _, ⟨_, _, ⟨_, _, ⟨_, _, ⟨_, _, ⟨_, hgod,
    rfl⟩, hnesting, rfl⟩, hbarrel, rfl⟩, hcatchAll, rfl⟩, hnamed, rfl⟩, hfiles, rfl⟩, hbucket, rfl⟩,
    hsize, rfl⟩, hradius, rfl⟩, hbatch, rfl⟩, hskip, rfl⟩, hprogress, rfl⟩ := h
  exact ⟨hgod, hnesting, hbarrel, hcatchAll, hnamed, hfiles, hbucket, hsize, hradius, hbatch, hskip,
    hprogress⟩

/-- The fields that the command line can set; all others are the same. -/
def flagFields : List String := ["context_radius", "show_progress"]

theorem eq_of_ofValues (h : ∀ name, name ∉ flagFields → values.get? name = values'.get? name)
    (hc : ofValues values = .valid c) (hc' : ofValues values' = .valid c') :
    c = { c' with contextRadius := c.contextRadius, showProgress := c.showProgress } := by
  have hr := reads_of_ofValues hc
  have hr' := reads_of_ofValues hc'
  have hgod := hr.godDirectory.eq hr'.godDirectory (h _ (by decide))
  have hnesting := hr.nestingDepth.eq hr'.nestingDepth (h _ (by decide))
  have hbarrel := hr.barrelBloat.eq hr'.barrelBloat (h _ (by decide))
  have hcatchAll := hr.catchAll.eq hr'.catchAll (h _ (by decide))
  have hnamed := hr.namedExports.eq hr'.namedExports (h _ (by decide))
  have hfiles := hr.namingFiles.eq hr'.namingFiles (h _ (by decide))
  have hbucket := hr.namingBucket.eq hr'.namingBucket (h _ (by decide))
  have hsize := hr.fileSize.eq hr'.fileSize (h _ (by decide))
  have hbatch := hr.batchSize.eq hr'.batchSize (h _ (by decide))
  have hskip := hr.skipDirs.eq hr'.skipDirs (h _ (by decide))
  obtain ⟨_, _, _, _, _, _, _, _, _, _, _, _⟩ := c
  cases hgod; cases hnesting; cases hbarrel; cases hcatchAll; cases hnamed; cases hfiles
  cases hbucket; cases hsize; cases hbatch; cases hskip
  rfl

theorem ofEnvironment_eq_ok {environment : Table String} {explicit : Table Json}
    (h : ofEnvironment environment explicit = .ok c) :
    ∃ values, environmentValues environment settings = .ok values
      ∧ ofValues (values.putAll (explicit.filter fun e => !isNull e.2)) = .valid c := by
  obtain ⟨values, hvalues, h⟩ := bind_eq_ok_iff.mp h
  refine ⟨values, hvalues, ?_⟩
  split at h
  · rename_i config hconfig
    cases h
    exact hconfig
  · cases h

/-- What flags set does not change the other fields. -/
theorem eq_of_ofEnvironment {environment : Table String} {explicit : Table Json}
    (hflags : ∀ name ∈ explicit.names, name ∈ flagFields)
    (hc : ofEnvironment environment explicit = .ok c)
    (hc' : ofEnvironment environment [] = .ok c') :
    c = { c' with contextRadius := c.contextRadius, showProgress := c.showProgress } := by
  obtain ⟨values, hvalues, hc⟩ := ofEnvironment_eq_ok hc
  obtain ⟨values', hvalues', hc'⟩ := ofEnvironment_eq_ok hc'
  rw [hvalues] at hvalues'
  cases hvalues'
  refine eq_of_ofValues (fun name hname => ?_) hc hc'
  have hnot : name ∉ Table.names (explicit.filter fun e => !isNull e.2) := by
    intro hmem
    obtain ⟨e, he, rfl⟩ := List.mem_map.mp hmem
    exact hname (hflags e.1 (List.mem_map_of_mem (List.mem_of_mem_filter he)))
  exact Table.get?_putAll_of_not_mem hnot values

end Config

end RepoSurvey
