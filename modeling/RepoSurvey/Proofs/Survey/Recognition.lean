import RepoSurvey.Proofs.Survey.Congruence

/-!
# What a survey recognizes

A survey opens files only if it recognizes their names, and asks for no others, be it for the target
of an import. The paths on which it does so start from the root and have no dots on them. Two disks
that answer such questions alike are surveyed alike.

* `Recognized`: the names of manifests, lockfiles and ignore files, and those of sources;
* `Path.Recognizable`: a path from the root, without dots, to such a name;
* `Import.recognizable_of_mem_candidates`: what is probed for an import;
* `Survey.LooksAlike`: two disks that answer alike, except that sources may be read differently if
  they are too long;
* `LooksAlike.load_eq`, `LooksAlike.map_visitAll_eq`, `LooksAlike.detectAll_eq`,
  `LooksAlike.analyze_eq`: the parts of a survey;
* `LooksAlike.ofDirectory_eq`: the whole, where sources are read alike.
-/

namespace RepoSurvey

/-- A name that tells a survey something of a file: that of a manifest, of a lockfile or of an
ignore file, or one with the suffix of a source. -/
def Recognized (name : String) : Prop :=
  (Manifest.ofFileName? name).isSome = true ∨ name ∈ Manifest.lockfiles.names
    ∨ name = Skip.ignoreFile ∨ SourceFile.isSource name = true

instance (name : String) : Decidable (Recognized name) :=
  inferInstanceAs (Decidable (_ ∨ _ ∨ _ ∨ _))

theorem SourceFile.isSource_of_isScript {name : String} (h : isScript name = true) :
    isSource name = true := by
  unfold isScript at h
  unfold isSource
  rw [List.contains_iff_mem] at h ⊢
  exact List.mem_append_left _ h

theorem Manifest.isSource_eq_false {name : String} (h : (ofFileName? name).isSome = true) :
    SourceFile.isSource name = false := by
  obtain ⟨m, hm⟩ := Option.isSome_iff_exists.mp h
  rw [ofFileName?_eq_some_iff.mp hm]
  cases m <;> decide +kernel

namespace Recognized

variable {name : String}

theorem undotted (h : Recognized name) : name ≠ "." ∧ name ≠ ".." := by
  constructor
  · rintro rfl
    exact absurd h (by decide +kernel)
  · rintro rfl
    exact absurd h (by decide +kernel)

theorem of_isSource (h : SourceFile.isSource name = true) : Recognized name :=
  Or.inr (Or.inr (Or.inr h))

theorem of_mem_lockfiles (h : name ∈ Manifest.lockfiles.names) : Recognized name :=
  Or.inr (Or.inl h)

theorem of_mem_styleConfigNames (h : name ∈ Design.styleConfigNames) : Recognized name := by
  have hall : ∀ n ∈ Design.styleConfigNames, Recognized n := by decide +kernel
  exact hall name h

theorem ignoreFile : Recognized Skip.ignoreFile := Or.inr (Or.inr (Or.inl rfl))

theorem packageJson : Recognized "package.json" := Or.inl (by decide +kernel)

end Recognized

/-- A path from the root, without dots on it, to a name that is recognized. -/
structure Path.Recognizable (p : Path) : Prop where
  absolute : p.absolute = true
  undotted : ∀ s ∈ p.segments, s ≠ "." ∧ s ≠ ".."
  name : Recognized p.name

theorem Path.Recognizable.eq_mk {p : Path} (h : p.Recognizable) : p = ⟨true, p.segments⟩ := by
  obtain ⟨absolute, segments⟩ := p
  obtain rfl : absolute = true := h.absolute
  rfl

theorem Path.recognizable_concat {above : List String} (habove : ∀ s ∈ above, s ≠ "." ∧ s ≠ "..")
    {name : String} (hname : Recognized name) : Path.Recognizable ⟨true, above ++ [name]⟩ := by
  refine ⟨rfl, fun s hs => ?_, ?_⟩
  · rcases List.mem_append.mp hs with hs | hs
    · exact habove s hs
    · rw [List.mem_singleton.mp hs]
      exact hname.undotted
  · rw [Path.name, List.getLast?_concat]
    exact hname

/-- Below a directory of two disks, where there are no links and the same directories with the same
rights, a path that is recognizable is looked up alike if the same stands under its name. -/
theorem Disk.lookup_eq_of_linkless {disk disk' : Disk} {place : List String}
    (hdisk : disk.WellFormed) (hdisk' : disk'.WellFormed) (hplace : SameDirectory disk disk' place)
    (hlinks : ∀ q target, disk.tree.at? (place ++ q) ≠ some (.link target))
    (hlinks' : ∀ q target, disk'.tree.at? (place ++ q) ≠ some (.link target))
    (hdirectories : ∀ q r, disk.node? (place ++ q) = some (.directory, r)
      ↔ disk'.node? (place ++ q) = some (.directory, r)) {p : Path}
    (hp : p.Recognizable) (hbelow : place <+: p.segments)
    (hend : ∀ above, disk.node? (place ++ (above ++ [p.name]))
      = disk'.node? (place ++ (above ++ [p.name]))) :
    disk.lookup p = disk'.lookup p := by
  obtain ⟨path, hpath⟩ := hbelow
  have hway : SameWay disk disk' place path := by
    refine ⟨fun s hs => hp.undotted s (hpath ▸ List.mem_append_right place hs),
      fun q target _ => hlinks q target, fun q target _ => hlinks' q target,
      fun q r _ => hdirectories q r, ?_⟩
    obtain rfl | ⟨above, name, rfl⟩ := List.eq_nil_or_concat' path
    · have hstart := hdirectories [] (disk.rights place)
      rw [List.append_nil] at hstart ⊢
      have hnode := isDirectory_iff_node?.mp hplace.left
      rw [hnode, hstart.mp hnode]
    · have hname : p.name = name := by
        rw [Path.name, ← hpath, ← List.append_assoc, List.getLast?_concat, Option.getD_some]
      rw [← hname]
      exact hend above
  rw [hp.eq_mk, ← hpath]
  exact hplace.lookup_eq hdisk hdisk' (hway.exists_reached hplace.left)

/-! ## Imports -/

namespace Import

theorem recognized_append {name suffix : String} (hname : name ≠ "") (hsuffix : suffix ∈ suffixes) :
    Recognized (name ++ suffix) := by
  have hall : ∀ s ∈ suffixes, ∃ ending, s = "." ++ ending ∧ ending ≠ "" ∧ '.' ∉ ending.toList
      ∧ SourceFile.sourceSuffixes.contains s = true := by
    have hends : ∀ e ∈ ["ts", "tsx", "js", "jsx"], e ≠ "" ∧ '.' ∉ e.toList
        ∧ SourceFile.sourceSuffixes.contains ("." ++ e) = true := by decide +kernel
    intro s hs
    obtain ⟨e, he, rfl⟩ : ∃ e ∈ ["ts", "tsx", "js", "jsx"], "." ++ e = s :=
      List.mem_map.mp (show s ∈ ["ts", "tsx", "js", "jsx"].map ("." ++ ·) from hs)
    exact ⟨e, rfl, hends e he⟩
  obtain ⟨ending, rfl, hne, hdots, hsource⟩ := hall suffix hsuffix
  refine .of_isSource ?_
  rw [SourceFile.isSource, Name.suffix_append hname hne hdots]
  exact hsource

variable {importer : Path}

/-- The target of an import is a path from the root without dots. -/
theorem undotted_targetOf (habsolute : importer.absolute = true)
    (hplain : ∀ s ∈ importer.segments, s ≠ "" ∧ s ≠ ".") (literal : String) :
    (targetOf importer literal).absolute = true
      ∧ ∀ s ∈ (targetOf importer literal).segments, s ≠ "" ∧ s ≠ "." ∧ s ≠ ".." := by
  have hjoined : (importer.parent.join (Path.ofText literal)).absolute = true
      ∧ ∀ s ∈ (importer.parent.join (Path.ofText literal)).segments, s ≠ "" ∧ s ≠ "." := by
    unfold Path.join
    split
    · rename_i hliteral
      exact ⟨hliteral, fun s hs => Path.of_mem_ofText hs⟩
    · refine ⟨habsolute, fun s hs => ?_⟩
      rcases List.mem_append.mp hs with hs | hs
      · exact hplain s (List.dropLast_subset _ hs)
      · exact Path.of_mem_ofText hs
  refine ⟨hjoined.1, fun s hs => ?_⟩
  obtain ⟨hmem, hdots⟩ := Path.mem_of_mem_normalize hjoined.1 hs
  exact ⟨(hjoined.2 s hmem).1, (hjoined.2 s hmem).2, hdots⟩

/-- All that is probed for an import has a name that is recognized. -/
theorem recognizable_of_mem_candidates {target p : Path} (habsolute : target.absolute = true)
    (hplain : ∀ s ∈ target.segments, s ≠ "" ∧ s ≠ "." ∧ s ≠ "..") (hne : target.segments ≠ [])
    (hp : p ∈ candidates target) : p.Recognizable := by
  have hundotted : ∀ s ∈ target.segments, s ≠ "." ∧ s ≠ ".." := fun s hs => (hplain s hs).2
  rcases List.mem_append.mp hp with hbeside | hinside
  · obtain ⟨suffix, hsuffix, rfl⟩ := List.mem_map.mp hbeside
    have hname : target.name ≠ "" := by
      rw [Path.name, List.getLast?_eq_some_getLast hne]
      exact (hplain _ (List.getLast_mem hne)).1
    rw [withSuffix, habsolute]
    exact Path.recognizable_concat (fun s hs => hundotted s (List.dropLast_subset _ hs))
      (recognized_append hname hsuffix)
  · obtain ⟨suffix, hsuffix, rfl⟩ := List.mem_map.mp hinside
    rw [Path.child, habsolute]
    exact Path.recognizable_concat hundotted (recognized_append (by decide) hsuffix)

end Import

variable {disk disk' : Disk} {place : List String} {skip : NameSet}

open Walk

/-! ## Files of a walk -/

namespace Walk

theorem undotted_of_isDirectory (hdisk : disk.WellFormed) (hplace : disk.IsDirectory place) :
    ∀ s ∈ place, s ≠ "." ∧ s ≠ ".." := by
  obtain ⟨entries, hat⟩ := hplace
  intro s hs
  have hname := Disk.entryName_of_at? hdisk.named hat s hs
  exact ⟨hname.ne_dot, hname.ne_dots⟩

theorem Seen.recognizable (hdisk : disk.WellFormed) {p : Path} (hp : Seen disk skip place p)
    (hname : Recognized p.name) : p.Recognizable := by
  obtain ⟨path, name, rfl, hentered⟩ := hp
  rw [Path.name, List.getLast?_concat] at hname
  exact Path.recognizable_concat (undotted_of_isDirectory hdisk hentered.stands) hname

theorem Seen.below {p : Path} (hp : Seen disk skip place p) : place <+: p.segments := by
  obtain ⟨path, name, rfl, _⟩ := hp
  exact ⟨path ++ [name], by rw [List.append_assoc]⟩

theorem Entered.seen_child {path : List String} (h : Entered disk skip ⟨true, place⟩ place path)
    (name : String) : Seen disk skip place (Path.child ⟨true, place ++ path⟩ name) :=
  ⟨path, name, rfl, h⟩

theorem seen_child_start (hplace : disk.IsDirectory place) (skip : NameSet) (name : String) :
    Seen disk skip place (Path.child ⟨true, place⟩ name) := by
  have hstart : Entered disk skip ⟨true, place⟩ place [] := entered_start hplace
  have hchild := hstart.seen_child name
  rwa [List.append_nil] at hchild

end Walk

namespace Survey

/-- Something visited that tells a survey something. -/
def relevant (e : WalkEntry) : Bool := e.isDirectory || decide (Recognized e.name)

theorem name_below (root : Path) {path : List String} (hne : path ≠ []) :
    (Path.below root path).name = path.getLastD "" := by
  obtain rfl | ⟨above, name, rfl⟩ := List.eq_nil_or_concat' path
  · exact absurd rfl hne
  · rw [(below_concat root above name).2, List.getLastD_concat]

/-- The manifests are among the files that tell a survey something. -/
theorem manifests_eq_filterMap (hdisk : disk.WellFormed) (root : Path) (skip : NameSet) :
    manifests disk root skip = ((Walk.entries disk root skip).filter relevant).filterMap fun e =>
      if e.isDirectory then none
      else Detector.readable? disk (Path.below root e.path) := by
  rw [manifests, Detector.readable, filePlaces, List.filterMap_map, List.filterMap_filter,
    List.filterMap_filter]
  refine List.filterMap_congr fun e he => ?_
  obtain ⟨hne, _⟩ := Walk.proper_of_mem_entries hdisk.named he
  cases hdirectory : e.isDirectory with
  | true => simp
  | false =>
    by_cases hname : Recognized e.name
    · simp [relevant, hdirectory, hname]
    · have hkind : Manifest.ofFileName? (Path.below root e.path).name = none := by
        rw [name_below root hne, ← Option.not_isSome_iff_eq_none]
        exact fun h => hname (Or.inl h)
      simp [relevant, hdirectory, hname, Detector.readable?, hkind]

theorem sources_eq_filter (disk : Disk) (root : Path) (skip : NameSet) :
    sources disk root skip = ((Walk.entries disk root skip).filter relevant).filter fun e =>
      !e.isDirectory && SourceFile.isSource e.name := by
  rw [← sources_eq, List.filter_filter]
  refine List.filter_congr fun e _ => ?_
  cases hsource : SourceFile.isSource e.name with
  | true => simp [relevant, Recognized.of_isSource hsource]
  | false => simp

end Survey

theorem Inventory.ofEntries_filter (entries : List WalkEntry) :
    ofEntries (entries.filter Survey.relevant) = ofEntries entries := by
  unfold ofEntries
  rw [List.foldl_filter]
  congr 1
  funext i e
  split
  · rfl
  · rename_i hirrelevant
    have hdirectory : e.isDirectory = false := by
      by_contra h
      exact hirrelevant (by simp [Survey.relevant, h])
    have hscript : SourceFile.isScript e.name = false := by
      by_contra h
      have hname := Recognized.of_isSource (SourceFile.isSource_of_isScript
        ((Bool.not_eq_false _).mp h))
      exact hirrelevant (by simp [Survey.relevant, hname])
    simp [add, hdirectory, hscript]

/-! ## Disks that look alike -/

namespace Survey

/-- Two disks that look alike to a survey of the directory at `place`. A walk visits the same
directories and the same files that tell a survey something. On the paths that are recognizable the
same are files, and files that are not too long read the same; below `place` the strict reading of
what is no source is the same, too. There is as much room on the stack. -/
structure LooksAlike (limit : Int) (place : List String) (disk disk' : Disk) : Prop where
  left : disk.WellFormed
  right : disk'.WellFormed
  directory : disk.IsDirectory place
  stack : disk.stack = disk'.stack
  entries : ∀ skip, (Walk.entries disk ⟨true, place⟩ skip).filter relevant
    = (Walk.entries disk' ⟨true, place⟩ skip).filter relevant
  isFile : ∀ p : Path, p.Recognizable → disk.isFile p = disk'.isFile p
  within : ∀ p : Path, p.Recognizable → disk.readWithin? limit p = disk'.readWithin? limit p
  strict : ∀ p : Path, p.Recognizable → place <+: p.segments →
    SourceFile.isSource p.name = false → disk.readStrict? p = disk'.readStrict? p

namespace LooksAlike

variable {limit : Int} {c : Config}

theorem load_eq (h : LooksAlike limit place disk disk') (extra : NameSet) :
    Skip.load disk ⟨true, place⟩ extra = Skip.load disk' ⟨true, place⟩ extra := by
  have hname : (Path.child ⟨true, place⟩ Skip.ignoreFile).name = Skip.ignoreFile := by
    rw [Path.name, Path.child, List.getLast?_concat]
    rfl
  have hseen := seen_child_start h.directory [] Skip.ignoreFile
  have hrecognizable := hseen.recognizable h.left (by rw [hname]; exact .ignoreFile)
  refine Skip.load_congr (h.isFile _ hrecognizable) ?_ extra
  exact h.strict _ hrecognizable hseen.below (by rw [hname]; decide +kernel)

/-! ### Manifests -/

theorem manifests_eq (h : LooksAlike limit place disk disk') (skip : NameSet) :
    manifests disk ⟨true, place⟩ skip = manifests disk' ⟨true, place⟩ skip := by
  rw [manifests_eq_filterMap h.left, manifests_eq_filterMap h.right, ← h.entries]
  refine List.filterMap_congr fun e he => ?_
  have hseen := seen_of_mem_entries h.left h.directory (List.mem_of_mem_filter he)
  split
  · rfl
  · refine Detector.readable?_congr fun hkind => ?_
    exact h.strict _ (hseen.recognizable h.left (Or.inl hkind)) hseen.below
      (Manifest.isSource_eq_false hkind)

theorem workspaceOf_eq (h : LooksAlike limit place disk disk') {m : FoundManifest}
    (hm : m ∈ manifests disk ⟨true, place⟩ skip) :
    Detector.workspaceOf disk ⟨true, place⟩ m.directory m.kind m.text
      = Detector.workspaceOf disk' ⟨true, place⟩ m.directory m.kind m.text := by
  obtain ⟨path, hdirectory, hentered, -⟩ := entered_of_mem_manifests h.left h.directory hm
  refine Detector.workspaceOf_congr h.stack (fun name hname => ?_) m.kind m.text
  rw [hdirectory]
  exact h.isFile _ (Path.recognizable_concat (undotted_of_isDirectory h.left hentered.stands)
    (.of_mem_lockfiles hname))

/-- The workspaces collected are the same, or collecting them fails alike. -/
theorem map_visitAll_eq (h : LooksAlike limit place disk disk') (skip : NameSet) :
    (Detector.initial.visitAll disk ⟨true, place⟩
        (filePlaces ⟨true, place⟩ (Walk.entries disk ⟨true, place⟩ skip))).map
          (fun r => r.1.workspaces)
      = (Detector.initial.visitAll disk' ⟨true, place⟩
        (filePlaces ⟨true, place⟩ (Walk.entries disk' ⟨true, place⟩ skip))).map
          (fun r => r.1.workspaces) := by
  rw [map_visitAll h.left, map_visitAll h.right, made, made, ← h.manifests_eq]
  exact mapM_congr fun m hm => h.workspaceOf_eq hm

/-! ### Sources -/

theorem sources_eq (h : LooksAlike limit place disk disk') (skip : NameSet) :
    sources disk ⟨true, place⟩ skip = sources disk' ⟨true, place⟩ skip := by
  rw [sources_eq_filter, sources_eq_filter, h.entries]

theorem detectAll_eq (h : LooksAlike (c.fileSize : Nat) place disk disk') (skip : NameSet) :
    detectAll disk ⟨true, place⟩ c (sources disk ⟨true, place⟩ skip)
      = detectAll disk' ⟨true, place⟩ c (sources disk' ⟨true, place⟩ skip) := by
  rw [← h.sources_eq]
  refine detectAll_congr fun e he => h.within _ ?_
  obtain ⟨hfile, hsource⟩ := List.mem_filter.mp he
  have hentry := List.mem_of_mem_filter hfile
  obtain ⟨hne, _⟩ := Walk.proper_of_mem_entries h.left.named hentry
  refine (seen_of_mem_entries h.left h.directory hentry).recognizable h.left ?_
  rw [name_below _ hne]
  exact .of_isSource hsource

/-! ### The organization -/

theorem collect_eq (h : LooksAlike limit place disk disk') (skip : NameSet) :
    Inventory.collect disk ⟨true, place⟩ skip = Inventory.collect disk' ⟨true, place⟩ skip := by
  rw [Inventory.collect, Inventory.collect, ← Inventory.ofEntries_filter, h.entries,
    Inventory.ofEntries_filter]

/-- Scripts of an inventory are recognizable. -/
theorem recognizable_of_mem_scripts (h : LooksAlike limit place disk disk') {path : List String}
    (hpath : path ∈ Organization.scripts disk ⟨true, place⟩ c skip) :
    (Path.below ⟨true, place⟩ path).Recognizable := by
  rw [Organization.scripts, Inventory.collect, Inventory.files_ofEntries] at hpath
  obtain ⟨e, he, rfl⟩ := List.mem_map.mp hpath
  obtain ⟨hentry, hscript⟩ := List.mem_filter.mp he
  obtain ⟨hne, _⟩ := Walk.proper_of_mem_entries h.left.named hentry
  refine (seen_of_mem_entries h.left h.directory hentry).recognizable h.left ?_
  rw [name_below _ hne]
  exact .of_isSource (SourceFile.isSource_of_isScript (Bool.and_eq_true_iff.mp hscript).2)

theorem resolve_eq (h : LooksAlike limit place disk disk') {path : List String}
    (hpath : path ∈ Organization.scripts disk ⟨true, place⟩ c skip) (literal : String) :
    Import.resolve disk (Path.below ⟨true, place⟩ path) literal
      = Import.resolve disk' (Path.below ⟨true, place⟩ path) literal := by
  have hplain : ∀ s ∈ (Path.below ⟨true, place⟩ path).segments, s ≠ "" ∧ s ≠ "." := by
    intro s hs
    obtain ⟨entries, hat⟩ := h.directory
    rcases List.mem_append.mp hs with hs | hs
    · have hname := Disk.entryName_of_at? h.left.named hat s hs
      exact ⟨hname.ne_empty, hname.ne_dot⟩
    · have hname := (Inventory.proper_of_mem_files h.left.named hpath).2 s hs
      exact ⟨hname.ne_empty, hname.ne_dot⟩
  obtain ⟨habsolute, htarget⟩ := Import.undotted_targetOf rfl hplain literal
  refine Import.resolve_congr (fun hscript => h.isFile _ ?_) fun hne p hp => h.isFile _ ?_
  · exact ⟨habsolute, fun s hs => (htarget s hs).2,
      .of_isSource (SourceFile.isSource_of_isScript hscript)⟩
  · exact Import.recognizable_of_mem_candidates habsolute htarget hne hp

theorem analyze_eq (h : LooksAlike (c.fileSize : Nat) place disk disk') (skip : NameSet) :
    Organization.analyze disk ⟨true, place⟩ c skip
      = Organization.analyze disk' ⟨true, place⟩ c skip :=
  Organization.analyze_congr (h.collect_eq _)
    (fun _ hpath => h.within _ (h.recognizable_of_mem_scripts hpath))
    fun _ hpath literal => h.resolve_eq hpath literal

/-! ### All together -/

/-- What is beside a workspace is the same, if sources are read alike. -/
theorem besideAlike (h : LooksAlike limit place disk disk')
    (hsources : ∀ p : Path, p.Recognizable → disk.readLenient? p = disk'.readLenient? p)
    {workspace : String} (hworkspace : Design.AtEntered disk skip place workspace) :
    Design.BesideAlike disk disk' ⟨true, place⟩ workspace := by
  obtain ⟨path, rfl, hentered⟩ := hworkspace
  have hplace := Design.placeOf_entered h.left.named hentered
  have hchild : ∀ {name : String}, Recognized name →
      (Path.child ⟨true, place ++ path⟩ name).Recognizable := fun hname =>
    Path.recognizable_concat (undotted_of_isDirectory h.left hentered.stands) hname
  constructor
  · exact h.stack
  · rw [hplace]
    refine h.strict _ (hchild .packageJson) (hentered.seen_child _).below ?_
    rw [Path.name, Path.child, List.getLast?_concat]
    decide +kernel
  · intro name hname
    rw [hplace]
    exact h.isFile _ (hchild (.of_mem_styleConfigNames hname))
  · intro name hname
    rw [Design.stylePlace_entered h.left.named hentered hname]
    exact hsources _ (hchild (.of_mem_styleConfigNames hname))

/-- Directories that look alike, and in which sources are read alike, are surveyed alike. -/
theorem ofDirectory_eq (h : LooksAlike (c.fileSize : Nat) place disk disk')
    (hsources : ∀ p : Path, p.Recognizable → disk.readLenient? p = disk'.readLenient? p) :
    ofDirectory disk ⟨true, place⟩ c = ofDirectory disk' ⟨true, place⟩ c := by
  refine bind_eq_bind (h.load_eq c.skipDirs) fun skip _ => ?_
  refine bind_eq_bind_of_map (h.map_visitAll_eq skip) fun r r' hr _ hsame => ?_
  have hresult : r.1.result = r'.1.result := by
    rw [Detector.result, Detector.result, hsame]
  have hdesign : designOf disk ⟨true, place⟩ r.1.result
      = designOf disk' ⟨true, place⟩ r.1.result := by
    rw [designOf, designOf, Design.analyze_congr fun w hw => h.besideAlike hsources
      (atEntered_of_mem_result h.left h.directory hr hw)]
  dsimp only
  rw [Survey.sources_eq, Survey.sources_eq, h.detectAll_eq skip, ← hresult, hdesign,
    h.analyze_eq skip]

end LooksAlike

end Survey

end RepoSurvey
