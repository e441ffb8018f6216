import RepoSurvey.Proofs.Config.Values
import RepoSurvey.Proofs.Skip.Subtree

/-!
# Directories that a config passes over

A directory can be passed over by a variable of the environment or by a line of the ignore file.
Slashes around it are taken away in the ignore file only, so that the two agree where there are
none, and a variable with one has no effect.

* `Config.environmentValues_single`, `Config.ofEnvironment_extraSkipDirs`: a variable with a single
  directory;
* `Walk.directories_write`: a new file makes no difference to the directories;
* `Walk.entries_unmatched`: what is no path passes over nothing;
* `Skip.writeIgnoreFile`: an ignore file where there was none, with `Skip.load_writeIgnoreFile`;
* `Skip.directories_extra`: a directory given either way.
-/

namespace RepoSurvey

/-! ## A variable with a single directory -/

namespace Config

section Single

variable {environment : Table String}

theorem environmentValues_append {front : List Setting}
    (h : ∀ s ∈ front, environment.get? s.variableName = none) (rest : List Setting) :
    environmentValues environment (front ++ rest) = environmentValues environment rest := by
  induction front with
  | nil => rfl
  | cons s front ih =>
    obtain ⟨hs, hfront⟩ := List.forall_mem_cons.mp h
    rw [List.cons_append, environmentValues, hs, ih hfront]
    rfl

/-- Where no other setting has a variable, the values are that of one setting. -/
theorem environmentValues_single {front back : List Setting} {s : Setting} {value : Json}
    (hfront : ∀ t ∈ front, environment.get? t.variableName = none)
    (hback : ∀ t ∈ back, environment.get? t.variableName = none) {raw : List Char}
    (hraw : Text.trim ((environment.get? s.variableName).getD "").toList = raw) (hne : raw ≠ [])
    (hvalue : s.value raw = .ok value) :
    environmentValues environment (front ++ s :: back) = .ok [(s.name, value)] := by
  have hnothing : environmentValues environment (back ++ []) = .ok [] :=
    environmentValues_append hback []
  rw [List.append_nil] at hnothing
  rw [environmentValues_append hfront, environmentValues, hraw, if_neg (by simpa using hne),
    hvalue, hnothing]
  rfl

end Single

/-- A text without commas and without blanks at its ends is taken as it is. -/
theorem nameList_eq_singleton {text : List Char} (hcomma : ',' ∉ text)
    (htrim : Text.trim text = text) (hne : text ≠ []) :
    nameList text = [String.ofList text] := by
  have hpieces : Text.splitAtEvery (· == ',') text = [text] :=
    Text.splitAtEvery_eq_singleton fun c hc => beq_eq_false_iff_ne.mpr fun h => hcomma (h ▸ hc)
  simp [nameList, hpieces, htrim, hne]

/-- The setting for directories that are passed over. -/
def extraSkipDirs : Setting := ⟨"extra_skip_dirs", .nameList⟩

theorem variableName_extraSkipDirs : extraSkipDirs.variableName = "WHEELSCAN_EXTRA_SKIP_DIRS" := by
  decide +kernel

/-- Where the variable of a single directory is all that is set, the directory is passed over, and
everything else has its default. -/
theorem ofEnvironment_extraSkipDirs {name : String} (hcomma : ',' ∉ name.toList)
    (htrim : Text.trim name.toList = name.toList) (hne : name.toList ≠ []) :
    ofEnvironment [("WHEELSCAN_EXTRA_SKIP_DIRS", name)] [] = .ok { skipDirs := [name] } := by
  have hother : ∀ s ∈ settings.take 10 ++ settings.drop 11,
      Table.get? [("WHEELSCAN_EXTRA_SKIP_DIRS", name)] s.variableName = none := by
    intro s hs
    have hnames : ∀ s ∈ settings.take 10 ++ settings.drop 11,
        "WHEELSCAN_EXTRA_SKIP_DIRS" ≠ s.variableName := by decide +kernel
    rw [Table.get?, if_neg (hnames s hs)]
    rfl
  have hraw : Text.trim ((Table.get? [("WHEELSCAN_EXTRA_SKIP_DIRS", name)]
      extraSkipDirs.variableName).getD "").toList = name.toList := by
    rw [variableName_extraSkipDirs, Table.get?, if_pos rfl]
    exact htrim
  have hvalue : extraSkipDirs.value name.toList = .ok (.strings [name]) := by
    show Except.ok (Json.strings (nameList name.toList)) = _
    rw [nameList_eq_singleton hcomma htrim hne, String.ofList_toList]
  have hvalues : environmentValues [("WHEELSCAN_EXTRA_SKIP_DIRS", name)] settings
      = .ok [("extra_skip_dirs", .strings [name])] :=
    environmentValues_single (fun s hs => hother s (List.mem_append_left _ hs))
      (fun s hs => hother s (List.mem_append_right _ hs)) hraw hne hvalue
  rw [ofEnvironment, hvalues]
  rfl

end Config

/-! ## Walks and new ignore files -/

namespace Walk

variable {disk : Disk} {skip skip' : NameSet} {root : Path} {place : List String}

/-- The directories that a walk visits; the others are passed over, or lie in one that is. -/
def directories (disk : Disk) (root : Path) (skip : NameSet) : List WalkEntry :=
  (entries disk root skip).filter (·.isDirectory)

/-- A new file makes no difference to the directories. -/
theorem directories_write (hdisk : disk.WellFormed) (hroot : disk.directory? root = some place)
    {above : List String} {name : String} (habove : disk.IsDirectory above)
    (hnone : disk.tree.at? (above ++ [name]) = none) (hname : FileTree.EntryName name)
    (bytes : List UInt8) (skip : NameSet) :
    directories (disk.write (above ++ [name]) bytes) root skip
      = directories disk root skip := by
  have hdisk' := hdisk.write_child habove hname bytes
  have hroot' : (disk.write (above ++ [name]) bytes).directory? root = some place := by
    rw [Disk.directory?_write habove hnone bytes hdisk hname, hroot]
  refine filter_entries_eq hdisk' hdisk hroot' hroot _ _ fun e => and_congr_left fun hkind => ?_
  obtain ⟨path, isDirectory⟩ := e
  obtain rfl : isDirectory = true := hkind
  have hstands : ∀ {q}, (disk.write (above ++ [name]) bytes).IsDirectory q ↔ disk.IsDirectory q :=
    Disk.isDirectory_write_iff habove hnone bytes
  have hlists := Disk.lists_write habove hnone bytes hdisk hname
  have hentered : Entered (disk.write (above ++ [name]) bytes) skip root place path
      ↔ Entered disk skip root place path :=
    ⟨fun h => ⟨hstands.mp h.stands, fun q hq hne => hlists _ ▸ h.open_ q hq hne, h.spared⟩,
      fun h => ⟨hstands.mpr h.stands, fun q hq hne => (hlists _).trans (h.open_ q hq hne),
        h.spared⟩⟩
  rw [listed_directory_iff, listed_directory_iff, hentered]

/-- What is no path passes over nothing. -/
theorem entries_unmatched (hdisk : disk.WellFormed) {name : String}
    (h : ∀ q, q ≠ [] → (∀ s ∈ q, Name.Proper s) → Path.joined q ≠ name) (root : Path) :
    entries disk root [name] = entries disk root [] := by
  refine entries_congr hdisk (fun q hq => ⟨?_, ?_⟩) root
  · rintro ⟨front, last, rfl, halways | hlast | hjoined⟩
    · exact ⟨front, last, rfl, Or.inl halways⟩
    · have hsingle : Path.joined [last] = last := String.intercalate_singleton
      refine absurd (hsingle.trans (List.mem_singleton.mp hlast)) (h [last] (by simp) ?_)
      exact List.forall_mem_singleton.mpr (hq last (by simp)).toProper
    · exact absurd (List.mem_singleton.mp hjoined) (h _ (by simp) fun s hs => (hq s hs).toProper)
  · rintro ⟨front, last, rfl, halways | hlast | hjoined⟩
    · exact ⟨front, last, rfl, Or.inl halways⟩
    · cases hlast
    · cases hjoined

end Walk

namespace Skip

variable {disk : Disk} {root : Path} {place : List String} {text ends : List Char}

/-- The directories that a walk visits, if it passes over the given ones and those of the ignore
file. -/
def directories (disk : Disk) (root : Path) (extra : NameSet) :
    Except SurveyError (List WalkEntry) :=
  (load disk root extra).map (Walk.directories disk root)

/-- The disk with an ignore file in a directory. -/
def writeIgnoreFile (disk : Disk) (place : List String) (text : List Char) : Disk :=
  disk.write (place ++ [ignoreFile]) (Utf8.encode text)

theorem entryName_ignoreFile : FileTree.EntryName ignoreFile := by decide

/-- Why an ignore file in the directory at `place` cannot be looked for, if it cannot. -/
def unreachable? (disk : Disk) (root : Path) (place : List String) : Option SurveyError :=
  if (root.child ignoreFile).text.utf8ByteSize > Disk.pathLimit then some .nameTooLong
  else if (disk.rights place).search then none
  else some .permissionDenied

/-- What an ignore file in a directory is looked up to, unless it cannot be looked for. -/
theorem lookup_ignoreFile (hnamed : disk.tree.Named) (hroot : disk.directory? root = some place)
    {found : Disk.Found} (hfound : (disk.rights place).search = true →
      disk.descend place [ignoreFile] = .reached found) :
    (unreachable? disk root place = none ∧ disk.lookup (root.child ignoreFile) = found)
      ∨ ∃ e, unreachable? disk root place = some e
        ∧ (disk.lookup (root.child ignoreFile)).error? = some e := by
  have hplace := Disk.directory?_eq_some.mp hroot
  unfold unreachable?
  cases hsearch : (disk.rights place).search with
  | false =>
    have hdenied := Disk.descend_denied hsearch ignoreFile []
    rw [Disk.lookup_child hnamed hplace entryName_ignoreFile hdenied]
    split <;> exact Or.inr ⟨_, rfl, rfl⟩
  | true =>
    rw [Disk.lookup_child hnamed hplace entryName_ignoreFile (hfound hsearch)]
    split
    · exact Or.inr ⟨_, rfl, rfl⟩
    · exact Or.inl ⟨rfl, rfl⟩

theorem load_of_error {e : SurveyError}
    (h : (disk.lookup (root.child ignoreFile)).error? = some e) (extra : NameSet) :
    load disk root extra = .error e := by
  rw [load, ofRepository, Disk.isFile, h]
  rfl

/-- What is made of a result, where there may be an error instead. -/
theorem map_elim_error {α β ε : Type} (f : α → β) (e : Option ε) (a : α) :
    Except.map f (e.elim (.ok a) .error) = e.elim (.ok (f a)) .error := by
  cases e <;> rfl

section New

variable (hdisk : disk.WellFormed) (hroot : disk.directory? root = some place)
  (hnone : disk.tree.at? (place ++ [ignoreFile]) = none)

include hdisk hroot hnone

/-- Without an ignore file only what is given is passed over. -/
theorem load_unlisted (extra : NameSet) : load disk root extra
    = (unreachable? disk root place).elim (.ok (NameSet.union extra [])) .error := by
  have hdescend : (disk.rights place).search = true →
      disk.descend place [ignoreFile] = .reached .absent := fun hsearch => by
    rw [Disk.descend_cons hsearch (by decide) (by decide) (by decide), hnone]
  rcases lookup_ignoreFile hdisk.named hroot hdescend with ⟨hreach, hlookup⟩ | ⟨e, he, herror⟩
  · rw [hreach, load, ofRepository, Disk.isFile, hlookup]
    rfl
  · rw [he, load_of_error herror]
    rfl

/-- A new ignore file adds what its text says. -/
theorem load_writeIgnoreFile (text : List Char) (extra : NameSet) :
    load (writeIgnoreFile disk place text) root extra = (unreachable? disk root place).elim
      (.ok (NameSet.union extra (ofIgnoreText (Text.unixNewlines text)))) .error := by
  have hplace := hdisk.isDirectory_of_lookup (Disk.directory?_eq_some.mp hroot)
  have hdisk' : (writeIgnoreFile disk place text).WellFormed :=
    hdisk.write_child hplace entryName_ignoreFile (Utf8.encode text)
  have hroot' : (writeIgnoreFile disk place text).directory? root = some place :=
    (Disk.directory?_write hplace hnone _ hdisk entryName_ignoreFile root).trans hroot
  have hfile : (writeIgnoreFile disk place text).tree.at? (place ++ [ignoreFile])
      = some (.file (Utf8.encode text)) := by
    have hput := FileTree.at?_put_append disk.tree (.file (Utf8.encode text))
      (place ++ [ignoreFile]) []
    rwa [List.append_nil] at hput
  have hcontents : (writeIgnoreFile disk place text).contents? (place ++ [ignoreFile])
      (Utf8.encode text) = some (Utf8.encode text) := by
    simp [writeIgnoreFile, Disk.write, Disk.contents?]
  have hdescend : ((writeIgnoreFile disk place text).rights place).search = true →
      (writeIgnoreFile disk place text).descend place [ignoreFile]
        = .reached (.file (some (Utf8.encode text))) := fun hsearch => by
    rw [← hcontents]
    exact (Disk.Descends.file hsearch hfile).descend_eq hdisk'.named
  have hsame : unreachable? (writeIgnoreFile disk place text) root place
      = unreachable? disk root place := by
    rw [unreachable?, unreachable?, writeIgnoreFile, Disk.rights_write_of_ne (by simp)]
  rw [← hsame]
  rcases lookup_ignoreFile hdisk'.named hroot' hdescend with ⟨hreach, hlookup⟩ | ⟨e, he, herror⟩
  · rw [hreach]
    refine load_of_read ?_ extra
    rw [Disk.readStrict?, Disk.bytes?_eq_some.mpr hlookup, Option.bind_some,
      Utf8.strict_encode, Option.map_some]
  · rw [he, load_of_error herror]
    rfl

end New

theorem union_nil_singleton (name : String) : NameSet.union [] [name] = [name] := rfl

theorem union_singleton_nil (name : String) : NameSet.union [name] [] = [name] := rfl

/-- A single line gives a single entry. -/
theorem ofIgnoreText_line (hfits : FitsLine text) (hne : Text.trimChar '/' text ≠ [])
    (hends : ∀ c ∈ ends, Text.isLineBoundary c = true) :
    ofIgnoreText (Text.unixNewlines (text ++ ends))
      = [String.ofList (Text.trimChar '/' text)] := by
  have htext : text ≠ [] := by
    rintro rfl
    exact hne rfl
  rw [ofIgnoreText_eq, Text.pieces_unixNewlines, Text.pieces_append_ends text hends,
    Text.pieces_unbroken htext hfits.unbroken, List.filterMap_cons, hfits.entry?_eq hne]
  rfl

/-- A directory that is given by a variable is passed over like one that is given by a line of the
ignore file, if there are no slashes around it. Slashes are taken away from the line only: with
some, the line passes over the same as without, and the variable over nothing. -/
theorem directories_extra (hdisk : disk.WellFormed) (hroot : disk.directory? root = some place)
    (hnone : disk.tree.at? (place ++ [ignoreFile]) = none) {name : String}
    (hfits : FitsLine name.toList) (hcomma : ',' ∉ name.toList)
    (hne : Text.trimChar '/' name.toList ≠ [])
    (hends : ∀ c ∈ ends, Text.isLineBoundary c = true) :
    ∃ c, Config.ofEnvironment [("WHEELSCAN_EXTRA_SKIP_DIRS", name)] [] = .ok c
      ∧ directories (writeIgnoreFile disk place (name.toList ++ ends)) root []
        = directories disk root [String.ofList (Text.trimChar '/' name.toList)]
      ∧ (Text.trimChar '/' name.toList = name.toList →
        directories disk root c.skipDirs
          = directories (writeIgnoreFile disk place (name.toList ++ ends)) root [])
      ∧ (Text.trimChar '/' name.toList ≠ name.toList →
        directories disk root c.skipDirs = directories disk root []) := by
  have hplace := hdisk.isDirectory_of_lookup (Disk.directory?_eq_some.mp hroot)
  have hname : name.toList ≠ [] := by
    intro hnil
    rw [hnil] at hne
    exact hne rfl
  have hline : directories (writeIgnoreFile disk place (name.toList ++ ends)) root []
      = directories disk root [String.ofList (Text.trimChar '/' name.toList)] := by
    have hwalk := Walk.directories_write hdisk hroot hplace hnone entryName_ignoreFile
      (Utf8.encode (name.toList ++ ends))
    rw [directories, directories, load_writeIgnoreFile hdisk hroot hnone,
      load_unlisted hdisk hroot hnone, map_elim_error, map_elim_error,
      ofIgnoreText_line hfits hne hends, union_nil_singleton, union_singleton_nil, writeIgnoreFile,
      hwalk]
  refine ⟨_, Config.ofEnvironment_extraSkipDirs hcomma hfits.trimmed hname, hline, fun hsame => ?_,
    fun hslash => ?_⟩
  · rw [hline, hsame, String.ofList_toList]
  · have hwalk : Walk.entries disk root [name] = Walk.entries disk root [] := by
      refine Walk.entries_unmatched hdisk ?_ root
      rintro q hq hproper rfl
      have htrim := Path.trimChar_joined hq hproper 0 0
      rw [List.replicate_zero, List.nil_append, List.append_nil] at htrim
      exact hslash htrim
    rw [directories, directories, load_unlisted hdisk hroot hnone, load_unlisted hdisk hroot hnone,
      union_singleton_nil, map_elim_error, map_elim_error, Walk.directories, hwalk]
    rfl

/-- A repository without an ignore file, with directories of one name in two places. -/
def listlessDisk : Disk where
  tree := .directory [("r", .directory [
    ("a", .directory [("old", .directory [("x.ts", .file [])])]),
    ("b", .directory [("old", .directory [("y.ts", .file [])])]),
    ("docs", .directory [("n.md", .file [])])])]

/-- A path from the environment is passed over as it is where an ignore file lists it. -/
theorem directories_extra_listless : listlessDisk.WellFormed
    ∧ listlessDisk.directory? ⟨true, ["r"]⟩ = some ["r"]
    ∧ listlessDisk.tree.at? (["r"] ++ [ignoreFile]) = none
    ∧ FitsLine "a/old".toList ∧ ',' ∉ "a/old".toList ∧ Text.trimChar '/' "a/old".toList ≠ []
    ∧ ∃ c, Config.ofEnvironment [("WHEELSCAN_EXTRA_SKIP_DIRS", "a/old")] [] = .ok c
      ∧ directories listlessDisk ⟨true, ["r"]⟩ c.skipDirs
        = directories (writeIgnoreFile listlessDisk ["r"] "a/old\n".toList) ⟨true, ["r"]⟩ []
      ∧ (directories (writeIgnoreFile listlessDisk ["r"] "a/old\n".toList) ⟨true, ["r"]⟩
          []).toOption.map (·.map (·.path)) = some [["a"], ["b"], ["b", "old"], ["docs"]] := by
  have hdisk : listlessDisk.WellFormed := by decide +kernel
  have hroot : listlessDisk.directory? ⟨true, ["r"]⟩ = some ["r"] := by decide +kernel
  have hnone : listlessDisk.tree.at? (["r"] ++ [ignoreFile]) = none := rfl
  have hfits : FitsLine "a/old".toList := by decide +kernel
  have hcomma : ',' ∉ "a/old".toList := by decide +kernel
  have hne : Text.trimChar '/' "a/old".toList ≠ [] := by decide +kernel
  have hends : ∀ c ∈ ['\n'], Text.isLineBoundary c = true :=
    List.forall_mem_singleton.mpr (by decide)
  obtain ⟨c, hc, _, hsame, _⟩ := directories_extra hdisk hroot hnone hfits hcomma hne hends
  exact ⟨hdisk, hroot, hnone, hfits, hcomma, hne, c, hc, hsame (by decide +kernel),
    by decide +kernel⟩

/-- With a slash behind it, the name of a directory passes over the directory in an ignore file, and
over nothing in the environment. -/
theorem not_directories_extra_slash : listlessDisk.WellFormed
    ∧ listlessDisk.directory? ⟨true, ["r"]⟩ = some ["r"]
    ∧ listlessDisk.tree.at? (["r"] ++ [ignoreFile]) = none
    ∧ FitsLine "docs/".toList ∧ ',' ∉ "docs/".toList ∧ Text.trimChar '/' "docs/".toList ≠ []
    ∧ ∃ c, Config.ofEnvironment [("WHEELSCAN_EXTRA_SKIP_DIRS", "docs/")] [] = .ok c
      ∧ directories listlessDisk ⟨true, ["r"]⟩ c.skipDirs
        ≠ directories (writeIgnoreFile listlessDisk ["r"] "docs/".toList) ⟨true, ["r"]⟩ [] := by
  have hfits : FitsLine "docs/".toList := by decide +kernel
  have hcomma : ',' ∉ "docs/".toList := by decide +kernel
  have hread := Config.ofEnvironment_extraSkipDirs hcomma hfits.trimmed (by decide +kernel)
  have hdirectories : (directories listlessDisk ⟨true, ["r"]⟩ ["docs/"]).toOption.map
      (·.map (·.path)) = some [["a"], ["a", "old"], ["b"], ["b", "old"], ["docs"]] := by
    decide +kernel
  have hignored : (directories (writeIgnoreFile listlessDisk ["r"] "docs/".toList) ⟨true, ["r"]⟩
      []).toOption.map (·.map (·.path)) = some [["a"], ["a", "old"], ["b"], ["b", "old"]] := by
    decide +kernel
  refine ⟨by decide +kernel, by decide +kernel, rfl, hfits, hcomma, by decide +kernel, _, hread,
    fun hsame => ?_⟩
  rw [← hsame, hdirectories] at hignored
  exact absurd hignored (by decide)

end Skip

end RepoSurvey
