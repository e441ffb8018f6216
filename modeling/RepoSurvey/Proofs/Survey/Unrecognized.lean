import RepoSurvey.Proofs.Survey.Recognition

/-!
# Files that are not recognized do not matter

* `Survey.SameRecognized`: two disks with the same directories below a place, and the same files of
  recognized names in them;
* `SameRecognized.lookup_eq`: what is recognizable is looked up alike;
* `Survey.run_eq_of_sameRecognized`: a survey of that place is the same on both;
* `Disk.lookup_eq_of_same_outside`: what is said of paths elsewhere holds if nothing differs there.
-/

namespace RepoSurvey

variable {disk disk' : Disk} {place : List String}

open FileTree

/-- Where there are no links, and the same stands everywhere but below a place, all paths that do
not lead there are looked up alike. -/
theorem Disk.lookup_eq_of_same_outside (hdisk : disk.WellFormed) (hdisk' : disk'.WellFormed)
    (hsame : ∀ q, ¬ place <+: q → disk.node? q = disk'.node? q) (hplace : place ≠ [])
    (hlinks : ∀ q target, disk.tree.at? q ≠ some (.link target)) {p : Path}
    (hp : p.Recognizable) (hout : ¬ place <+: p.segments) : disk.lookup p = disk'.lookup p := by
  have hbefore : ∀ q, q <+: p.segments → disk.node? q = disk'.node? q :=
    fun q hq => hsame q fun hplace => hout (hplace.trans hq)
  have hway : SameWay disk disk' [] p.segments :=
    ⟨hp.undotted, fun q target _ => hlinks q target, fun q target hq hat =>
      hlinks q target (at?_congr (hbefore q hq).symm rfl hat).1,
      fun q r hq => by rw [List.nil_append, hbefore q hq], hbefore _ (List.prefix_refl _)⟩
  have hroot : SameDirectory disk disk' [] :=
    ⟨hdisk.isDirectory_root, hdisk'.isDirectory_root, rfl,
      rights_congr (hsame [] fun h => hplace (List.prefix_nil.mp h)) hdisk.isDirectory_root⟩
  rw [hp.eq_mk]
  exact hroot.lookup_eq hdisk hdisk' (hway.exists_reached hroot.left)

namespace Survey

/-- Below `place` two disks have no links, the same directories, and the same files of recognized
names, all with the same rights; what other files there are does not matter. Elsewhere what is
recognizable is looked up alike. There is as much room on the stack. -/
structure SameRecognized (place : List String) (disk disk' : Disk) : Prop where
  directories : ∀ path rights, disk.node? (place ++ path) = some (.directory, rights)
    ↔ disk'.node? (place ++ path) = some (.directory, rights)
  files : ∀ above name bytes rights, Recognized name →
    (disk.node? (place ++ (above ++ [name])) = some (.file bytes, rights)
      ↔ disk'.node? (place ++ (above ++ [name])) = some (.file bytes, rights))
  linkless : ∀ path target, disk.tree.at? (place ++ path) ≠ some (.link target)
  linkless' : ∀ path target, disk'.tree.at? (place ++ path) ≠ some (.link target)
  outside : ∀ p : Path, p.Recognizable → ¬ place <+: p.segments → disk.lookup p = disk'.lookup p
  stack : disk.stack = disk'.stack

namespace SameRecognized

theorem symm (h : SameRecognized place disk disk') : SameRecognized place disk' disk :=
  ⟨fun path rights => (h.directories path rights).symm, fun above name bytes rights hname =>
    (h.files above name bytes rights hname).symm, h.linkless', h.linkless,
    fun p hp hout => (h.outside p hp hout).symm, h.stack.symm⟩

/-- The same stands under a name that is recognized. -/
theorem node?_eq (h : SameRecognized place disk disk') (above : List String) {name : String}
    (hname : Recognized name) :
    disk.node? (place ++ (above ++ [name])) = disk'.node? (place ++ (above ++ [name])) := by
  have hleft : ∀ {d d' : Disk}, SameRecognized place d d' → ∀ n,
      d.node? (place ++ (above ++ [name])) = some n →
        d'.node? (place ++ (above ++ [name])) = some n := by
    rintro d d' hd ⟨n, rights⟩ hn
    cases n with
    | file bytes => exact (hd.files above name bytes rights hname).mp hn
    | link target =>
      exact absurd (Disk.at?_of_node? rfl hn).1 (hd.linkless _ target)
    | directory => exact (hd.directories _ rights).mp hn
  exact Option.ext fun n => ⟨hleft h n, hleft h.symm n⟩

/-- The directory is gone down to alike where it is reached on both disks. -/
theorem sameDirectory (h : SameRecognized place disk disk') (hdisk : disk.WellFormed)
    (hdisk' : disk'.WellFormed) (hplace : disk.Reaches place) (hplace' : disk'.Reaches place) :
    Disk.SameDirectory disk disk' place := by
  have hstart := h.directories [] (disk.rights place)
  rw [List.append_nil] at hstart
  have hnode := Disk.isDirectory_iff_node?.mp (hplace.isDirectory hdisk)
  exact .of_reaches hdisk hdisk' hplace hplace'
    (Disk.rights_congr (hnode.trans (hstart.mp hnode).symm) (hplace.isDirectory hdisk))

section Reached

variable (hdisk : disk.WellFormed) (hdisk' : disk'.WellFormed) (hplace : disk.Reaches place)
  (hplace' : disk'.Reaches place)

include hdisk hdisk' hplace hplace'

/-- Directories can be listed on both disks or on neither. -/
theorem lists_eq (h : SameRecognized place disk disk') {path : List String}
    (hpath : disk.IsDirectory (place ++ path)) :
    disk.lists ⟨true, place ++ path⟩ = disk'.lists ⟨true, place ++ path⟩ := by
  refine ((h.sameDirectory hdisk hdisk' hplace hplace').append hdisk hdisk' (fun q hq => ?_)
    hpath).lists_eq hdisk hdisk'
  obtain ⟨rest, rfl⟩ := hq
  rw [← List.append_assoc] at hpath
  have hnode := Disk.isDirectory_iff_node?.mp hpath.of_append
  rw [hnode, (h.directories q _).mp hnode]

/-- What tells a survey something is listed on both disks. -/
theorem listed (h : SameRecognized place disk disk') {skip : NameSet} {e : WalkEntry}
    (hrelevant : relevant e = true) (he : Walk.Listed disk skip ⟨true, place⟩ place e) :
    Walk.Listed disk' skip ⟨true, place⟩ place e := by
  obtain ⟨path, isDirectory⟩ := e
  refine ⟨he.nonempty, ?_, fun q hq hne => ?_, he.above, he.self⟩
  · cases he.stands with
    | directory hat =>
      have hnode := Disk.isDirectory_iff_node?.mp ⟨_, hat⟩
      obtain ⟨inner, hat'⟩ :=
        Disk.isDirectory_iff_exists_node?.mpr ⟨_, (h.directories path _).mp hnode⟩
      exact .directory hat'
    | @file bytes hat =>
      obtain rfl | ⟨above, name, rfl⟩ := List.eq_nil_or_concat' path
      · exact absurd rfl he.nonempty
      · have hname : Recognized name := by
          simpa [relevant, WalkEntry.name] using hrelevant
        exact .file (Disk.at?_congr (h.node?_eq above hname) rfl hat).1
    | link hat _ => exact absurd hat (h.linkless _ _)
  · obtain ⟨rest, rfl⟩ := hq
    obtain ⟨t, hat⟩ := he.stands.exists_at?
    have hq : disk.IsDirectory (place ++ q) := by
      obtain ⟨name, rest, rfl⟩ := List.exists_cons_of_ne_nil fun hnil : rest = [] =>
        hne (by rw [hnil, List.append_nil])
      rw [← List.append_assoc] at hat
      exact Disk.isDirectory_of_at?_below hat
    exact (h.lists_eq hdisk hdisk' hplace hplace' hq).symm.trans
      (he.open_ q (List.prefix_append q rest) hne)

/-- What is recognizable is looked up alike. On the way to it there may be files that are not
recognized, and nothing in place of them; either way there is nothing below. -/
theorem lookup_eq (h : SameRecognized place disk disk') {p : Path} (hp : p.Recognizable) :
    disk.lookup p = disk'.lookup p := by
  by_cases hbelow : place <+: p.segments
  · exact Disk.lookup_eq_of_linkless hdisk hdisk' (h.sameDirectory hdisk hdisk' hplace hplace')
      h.linkless h.linkless' h.directories hp hbelow fun above => h.node?_eq above hp.name
  · exact h.outside p hp hbelow

theorem looksAlike (h : SameRecognized place disk disk') (limit : Int) :
    LooksAlike limit place disk disk' := by
  have hlookup : ∀ p : Path, p.Recognizable → disk.lookup p = disk'.lookup p := fun p hp =>
    h.lookup_eq hdisk hdisk' hplace hplace' hp
  exact {
    left := hdisk
    right := hdisk'
    directory := hplace.isDirectory hdisk
    stack := h.stack
    entries := fun skip => Walk.filter_entries_eq_of_listed_iff hdisk hdisk'
      (Disk.directory?_eq_some.mpr hplace) (Disk.directory?_eq_some.mpr hplace') relevant
      fun e he => ⟨h.listed hdisk hdisk' hplace hplace' he,
        h.symm.listed hdisk' hdisk hplace' hplace he⟩
    isFile := fun p hp => Disk.isFile_congr (hlookup p hp)
    within := fun p hp => Disk.readWithin?_congr (Disk.readLenient?_congr (hlookup p hp)) limit
    strict := fun p hp _ _ => Disk.readStrict?_congr (hlookup p hp) }

end Reached

end SameRecognized

/-- Files that are not recognized do not matter. If two disks without links below a directory have
the same directories there and the same files of recognized names, then surveying that directory
gives the same on both, be it a result or an error. -/
theorem run_eq_of_sameRecognized (hdisk : disk.WellFormed) (hdisk' : disk'.WellFormed) {path : Path}
    (hpath : disk.destination path = .ok (.directory place))
    (hpath' : disk'.destination path = .ok (.directory place))
    (h : SameRecognized place disk disk') (c : Config) : run disk path c = run disk' path c := by
  have hplace := (Disk.resolve_of_destination hdisk hpath).2
  have hplace' := (Disk.resolve_of_destination hdisk' hpath').2
  have hlooks := h.looksAlike hdisk hdisk' hplace hplace' (c.fileSize : Nat)
  rw [run_of_directory hpath, run_of_directory hpath']
  exact hlooks.ofDirectory_eq fun p hp =>
    Disk.readLenient?_congr (h.lookup_eq hdisk hdisk' hplace hplace' hp)

/-- A repository with a script that imports itself, what is called `notes` and what is inside it,
with notes of some kind beside it. -/
def notedDisk (notes : List (String × FileTree)) : Disk where
  tree := .directory [("r", .directory (("a.ts", .file (Utf8.encode
    "import './notes'; import './notes/b'; import '../r'".toList)) :: notes))]

/-- Notes are files of names that are not recognized. -/
def Notes (notes : List (String × FileTree)) : Prop :=
  ∀ e ∈ notes, ¬ Recognized e.1 ∧ ∃ bytes, e.2 = .file bytes

section Noted

variable {notes notes' : List (String × FileTree)}

theorem exists_file_of_at?_notedDisk (h : Notes notes) {s : String} {path : List String}
    {t : FileTree} (hat : (notedDisk notes).tree.at? ("r" :: s :: path) = some t) :
    ∃ bytes, t = .file bytes ∧ path = [] ∧ (Recognized s → s = "a.ts") := by
  by_cases hs : "a.ts" = s
  · subst hs
    cases path with
    | nil =>
      cases hat
      exact ⟨_, rfl, rfl, fun _ => rfl⟩
    | cons next path => cases hat
  · simp only [notedDisk, at?, entries, find?, if_true, hs, if_false, Option.bind_some] at hat
    obtain ⟨u, hu, hat⟩ := Option.bind_eq_some_iff.mp hat
    obtain ⟨hname, bytes, hfile⟩ := h _ (mem_of_find? hu)
    obtain rfl : u = .file bytes := hfile
    cases path with
    | nil =>
      cases hat
      exact ⟨bytes, rfl, rfl, fun hrecognized => absurd hrecognized hname⟩
    | cons next path => cases hat

theorem at?_notedDisk_eq_none {s : String} (hs : "r" ≠ s) (path : List String) :
    (notedDisk notes).tree.at? (s :: path) = none := by
  simp [notedDisk, at?, entries, find?, hs]

theorem linkless_notedDisk (h : Notes notes) (q : List String) (target : String) :
    (notedDisk notes).tree.at? q ≠ some (.link target) := by
  intro hat
  match q with
  | [] => cases hat
  | s :: path =>
    by_cases hs : "r" = s
    · subst hs
      match path with
      | [] => cases hat
      | s :: path =>
        obtain ⟨_, hfile, _⟩ := exists_file_of_at?_notedDisk h hat
        cases hfile
    · rw [at?_notedDisk_eq_none hs] at hat
      cases hat

theorem node?_notedDisk_directory (h : Notes notes) {path : List String} {rights : Rights} :
    (notedDisk notes).node? (["r"] ++ path) = some (.directory, rights)
      ↔ path = [] ∧ rights = {} := by
  rw [Disk.node?_eq_some]
  match path with
  | [] => exact ⟨fun hnode => ⟨rfl, hnode.2.symm⟩, fun hroot => ⟨⟨_, rfl, rfl⟩, hroot.2.symm⟩⟩
  | s :: path =>
    refine iff_of_false ?_ fun hroot => List.cons_ne_nil s path hroot.1
    rintro ⟨⟨t, hat, ht⟩, _⟩
    obtain ⟨_, rfl, _⟩ := exists_file_of_at?_notedDisk h hat
    cases ht

/-- Notes do not matter to what is recognized. -/
theorem sameRecognized_notedDisk (h : Notes notes) (h' : Notes notes')
    (hdisk : Disk.WellFormed (notedDisk notes)) (hdisk' : Disk.WellFormed (notedDisk notes')) :
    SameRecognized ["r"] (notedDisk notes) (notedDisk notes') where
  directories := fun path rights =>
    (node?_notedDisk_directory h).trans (node?_notedDisk_directory h').symm
  files := by
    intro above name bytes rights hname
    have hscript : ∀ {notes notes'}, Notes notes →
        (notedDisk notes).node? (["r"] ++ (above ++ [name])) = some (.file bytes, rights) →
        (notedDisk notes').node? (["r"] ++ (above ++ [name])) = some (.file bytes, rights) := by
      intro notes notes' hnotes hnode
      obtain ⟨⟨t, hat, _⟩, _⟩ := Disk.node?_eq_some.mp hnode
      match above with
      | [] =>
        obtain ⟨_, _, _, hs⟩ := exists_file_of_at?_notedDisk hnotes hat
        obtain rfl := hs hname
        exact hnode
      | s :: above =>
        obtain ⟨_, _, hend, _⟩ := exists_file_of_at?_notedDisk hnotes hat
        simp at hend
    exact ⟨hscript h, hscript h'⟩
  linkless := fun path target => linkless_notedDisk h _ target
  linkless' := fun path target => linkless_notedDisk h' _ target
  outside := by
    intro p hp hout
    refine Disk.lookup_eq_of_same_outside hdisk hdisk' (fun q hq => ?_) (List.cons_ne_nil _ _)
      (linkless_notedDisk h) hp hout
    match q with
    | [] => rfl
    | s :: path =>
      have hs : "r" ≠ s := by
        rintro rfl
        exact hq ⟨path, rfl⟩
      rw [Disk.node?, Disk.node?, at?_notedDisk_eq_none hs, at?_notedDisk_eq_none hs]
      rfl
  stack := rfl

end Noted

/-- It makes no difference whether an import leads to a file that is not recognized, or to something
that would be inside one. -/
theorem run_eq_of_sameRecognized_noted :
    Disk.WellFormed (notedDisk [("notes", .file [0xff])])
      ∧ Disk.WellFormed (notedDisk [("readme.md", .file [])])
      ∧ SameRecognized ["r"] (notedDisk [("notes", .file [0xff])])
        (notedDisk [("readme.md", .file [])])
      ∧ ∃ r, run (notedDisk [("notes", .file [0xff])]) ⟨true, ["r"]⟩ {} = .ok r
        ∧ run (notedDisk [("readme.md", .file [])]) ⟨true, ["r"]⟩ {} = .ok r := by
  have hdisk : Disk.WellFormed (notedDisk [("notes", .file [0xff])]) := by decide +kernel
  have hdisk' : Disk.WellFormed (notedDisk [("readme.md", .file [])]) := by decide +kernel
  have hsame := sameRecognized_notedDisk
    (List.forall_mem_singleton.mpr ⟨by decide +kernel, [0xff], rfl⟩)
    (List.forall_mem_singleton.mpr ⟨by decide +kernel, [], rfl⟩) hdisk hdisk'
  obtain ⟨r, hr⟩ : ∃ r, run (notedDisk [("notes", .file [0xff])]) ⟨true, ["r"]⟩ {} = .ok r :=
    exists_ok_of_isSome (by decide +kernel)
  refine ⟨hdisk, hdisk', hsame, r, hr, ?_⟩
  rw [← run_eq_of_sameRecognized hdisk hdisk' (by decide +kernel) (by decide +kernel) hsame, hr]

end Survey

end RepoSurvey
