import RepoSurvey.Proofs.Manifest.Detector
import RepoSurvey.Proofs.Table
import RepoSurvey.Proofs.Toml.Distinct

/-!
# Where a Python project declares a dependency

A project may list requirements or give tables of entries, in three places. A dependency has the
specifier of the last place that declares it, and the position of its first declaration.

* `Toml.at?`: what a path leads to through tables;
* `LastBinds`: the last of some things that bind a name binds it;
* `DependencySource.Binds`, `DependencySource.names`: what a place for dependencies declares;
* `lastBinds_iff`, `binds_iff`: what is bound last is read off the entries of all places in turn;
* `ofPyproject_precedence`: the dependencies of a text that describes tables of any shape.
-/

namespace RepoSurvey

/-- What a path leads to through tables. -/
def Toml.at? : Toml → List String → Option Toml
  | v, [] => some v
  | .table entries, name :: path => (Table.get? entries name).bind fun v => v.at? path
  | _, _ :: _ => none

/-- The last of some things that bind a name, each to a text, binds it to this one. -/
def LastBinds {α : Type} (binds : α → String → String → Prop) (xs : List α) (name s : String) :
    Prop :=
  ∃ before x after, xs = before ++ x :: after ∧ binds x name s
    ∧ ∀ later ∈ after, ∀ other, ¬ binds later name other

namespace Manifest

/-- A text is a specifier, and so is the version of a table; a table without one stands for any. -/
inductive GivesSpec : Toml → String → Prop
  | text (s : String) : GivesSpec (.str s) s
  | version {entries : Table Toml} {s : String} : entries.get? "version" = some (.str s) →
      GivesSpec (.table entries) s
  | any {entries : Table Toml} : (∀ s, entries.get? "version" ≠ some (.str s)) →
      GivesSpec (.table entries) "*"

/-- An item of a list that is the requirement of a package. -/
def RequirementOf (item : Toml) (name spec : String) : Prop :=
  ∃ text, item = .str text ∧ requirement? text.toList = some ⟨name, spec⟩

inductive DependencySource
  | requirements (items : List Toml)
  | entries (t : Table Toml)

namespace DependencySource

/-- What a place declares. -/
inductive Binds : DependencySource → String → String → Prop
  | requirement {items : List Toml} {name s : String} :
      LastBinds RequirementOf items name s → Binds (.requirements items) name s
  | entry {t : Table Toml} {name s : String} {v : Toml} :
      t.get? name = some v → GivesSpec v s → Binds (.entries t) name s

/-- The names that a place declares, in order. -/
def names : DependencySource → List String
  | .requirements items => items.filterMap fun item =>
      item.str?.bind fun text => (requirement? text.toList).map Requirement.name
  | .entries t => t.filterMap fun
      | (name, .str _) => some name
      | (name, .table _) => some name
      | _ => none

/-- The table that stands at a place, if one does. -/
def tableOf : Option Toml → Table Toml
  | some (.table t) => t
  | _ => []

/-- The dependencies of a project are a list or a table. -/
def ofProject : Option Toml → DependencySource
  | some (.array items) => .requirements items
  | found => .entries (tableOf found)

/-- The places for dependencies; a later one takes precedence. -/
def all (t : Table Toml) : List DependencySource :=
  [ofProject (Toml.at? (.table t) ["project", "dependencies"]),
   .entries (tableOf (Toml.at? (.table t) ["dependencies"])),
   .entries (Table.erase (tableOf (Toml.at? (.table t) ["tool", "poetry", "dependencies"]))
    "python")]

end DependencySource

end Manifest

/-! ## The last that binds a name -/

section LastBinds

variable {α : Type} {binds : α → String → String → Prop} {xs : List α} {name : String}

theorem lastBinds_cons {x : α} {s : String} :
    LastBinds binds (x :: xs) name s ↔ LastBinds binds xs name s
      ∨ binds x name s ∧ ∀ later ∈ xs, ∀ other, ¬ binds later name other := by
  constructor
  · rintro ⟨before, y, after, heq, hy, hafter⟩
    rcases List.cons_eq_append_iff.mp heq with ⟨rfl, heq⟩ | ⟨front, rfl, rfl⟩
    · cases heq
      exact Or.inr ⟨hy, hafter⟩
    · exact Or.inl ⟨front, y, after, rfl, hy, hafter⟩
  · rintro (⟨before, y, after, rfl, hy, hafter⟩ | ⟨hx, hxs⟩)
    · exact ⟨x :: before, y, after, rfl, hy, hafter⟩
    · exact ⟨[], x, xs, rfl, hx, hxs⟩

/-- Things behind that do not bind the name do not matter. -/
theorem LastBinds.append {s : String} (h : LastBinds binds xs name s) {more : List α}
    (hmore : ∀ x ∈ more, ∀ other, ¬ binds x name other) :
    LastBinds binds (xs ++ more) name s := by
  obtain ⟨before, x, after, rfl, hx, hafter⟩ := h
  exact ⟨before, x, after ++ more, by simp, hx, List.forall_mem_append.mpr ⟨hafter, hmore⟩⟩

/-- If some of the things bind a name, one of them is the last to do so. -/
theorem exists_lastBinds_iff : (∃ s, LastBinds binds xs name s)
    ↔ ∃ x ∈ xs, ∃ s, binds x name s := by
  constructor
  · rintro ⟨s, before, x, after, rfl, hx, -⟩
    exact ⟨x, by simp, s, hx⟩
  · intro hsome
    induction xs with
    | nil =>
      obtain ⟨x, hmem, -⟩ := hsome
      cases hmem
    | cons x xs ih =>
      by_cases hlater : ∃ later ∈ xs, ∃ other, binds later name other
      · obtain ⟨s, hs⟩ := ih hlater
        exact ⟨s, lastBinds_cons.mpr (Or.inl hs)⟩
      · obtain ⟨y, hmem, s, hy⟩ := hsome
        rcases List.mem_cons.mp hmem with rfl | hmem
        · exact ⟨s, lastBinds_cons.mpr (Or.inr ⟨hy, by simpa using hlater⟩)⟩
        · exact absurd ⟨y, hmem, s, hy⟩ hlater

/-- Where each thing binds a name as the last of its entries does, the last thing that binds it
does so as the last of all entries. -/
theorem lastBinds_iff {entries : α → List (String × String)}
    (h : ∀ x ∈ xs, ∀ s, binds x name s ↔ Table.get? (entries x).reverse name = some s)
    (s : String) : LastBinds binds xs name s
      ↔ Table.get? (xs.flatMap entries).reverse name = some s := by
  induction xs generalizing s with
  | nil =>
    refine iff_of_false ?_ (by simp [Table.get?])
    rintro ⟨before, x, after, heq, -⟩
    simp at heq
  | cons x xs ih =>
    obtain ⟨hx, hxs⟩ := List.forall_mem_cons.mp h
    have hnone : (∀ later ∈ xs, ∀ other, ¬ binds later name other)
        ↔ Table.get? (xs.flatMap entries).reverse name = none := by
      rw [Option.eq_none_iff_forall_ne_some, ← not_exists]
      simp only [← ih hxs, exists_lastBinds_iff]
      push Not
      rfl
    rw [lastBinds_cons, ih hxs, hx, hnone, List.flatMap_cons, List.reverse_append,
      Table.get?_append, Option.or_eq_some_iff, and_comm]

end LastBinds

/-! ## Paths through tables -/

namespace Toml

theorem at?_cons (v : Toml) (name : String) (path : List String) :
    v.at? (name :: path) = (v.entries.get? name).bind fun v => v.at? path := by
  cases v <;> rfl

theorem Distinct.at? {v w : Toml} (hv : Distinct v) {path : List String}
    (h : v.at? path = some w) : Distinct w := by
  induction path generalizing v with
  | nil =>
    rw [Toml.at?] at h
    cases h
    exact hv
  | cons name path ih =>
    rw [at?_cons] at h
    obtain ⟨u, hu, hrest⟩ := Option.bind_eq_some_iff.mp h
    cases v with
    | table entries => exact ih (hv.get? hu) hrest
    | _ => cases hu

/-- A step into a table that may be missing. -/
theorem at?_tableAt (t : Table Toml) (name next : String) (path : List String) :
    (Toml.table t).at? (name :: next :: path)
      = (Toml.table (tableAt t name)).at? (next :: path) := by
  rw [at?_cons, at?_cons, entries, entries, tableAt]
  cases t.get? name with
  | none => rfl
  | some v => exact at?_cons v next path

theorem at?_singleton (t : Table Toml) (name : String) :
    (Toml.table t).at? [name] = t.get? name := by
  rw [at?_cons]
  cases h : t.get? name with
  | none => simp [entries, h]
  | some v => simp [entries, h, at?]

end Toml

namespace Manifest

open DependencySource

theorem tableOf_at? (t : Table Toml) (name : String) :
    tableOf ((Toml.table t).at? [name]) = Toml.tableAt t name := by
  rw [Toml.at?_singleton, Toml.tableAt]
  cases t.get? name with
  | none => rfl
  | some v => cases v <;> rfl

theorem nodup_names_tableOf {found : Option Toml} (h : ∀ v, found = some v → v.Distinct) :
    (tableOf found).names.Nodup := by
  unfold tableOf
  split
  · exact (h _ rfl).nodup_names
  · exact List.nodup_nil

/-! ## Entries of a place -/

theorem bind_str?_eq_some_iff {found : Option Toml} {s : String} :
    found.bind Toml.str? = some s ↔ found = some (.str s) := by
  cases found with
  | none => simp
  | some v => cases v <;> simp [Toml.str?]

theorem spec?_eq_some_iff {v : Toml} {s : String} : spec? v = some s ↔ GivesSpec v s := by
  constructor
  · intro h
    cases v with
    | str text =>
      cases h
      exact .text s
    | table entries =>
      cases hversion : (Table.get? entries "version").bind Toml.str? with
      | none =>
        rw [spec?, hversion] at h
        cases h
        refine .any fun s hs => ?_
        rw [bind_str?_eq_some_iff.mpr hs] at hversion
        cases hversion
      | some version =>
        rw [spec?, hversion] at h
        cases h
        exact .version (bind_str?_eq_some_iff.mp hversion)
    | _ => cases h
  · intro h
    cases h with
    | text => rfl
    | version hversion => rw [spec?, bind_str?_eq_some_iff.mpr hversion, Option.getD_some]
    | @any entries hnone =>
      have hversion : (entries.get? "version").bind Toml.str? = none := by
        rw [Option.eq_none_iff_forall_ne_some]
        exact fun s hs => hnone s (bind_str?_eq_some_iff.mp hs)
      rw [spec?, hversion]
      rfl

theorem tomlEntries_eq (t : Table Toml) : tomlEntries t = Table.mapSome spec? t := rfl

/-- The entry of an item of a list of requirements. -/
def requirementPair? (item : Toml) : Option (String × String) :=
  (item.str?.bind fun text => requirement? text.toList).map fun r => (r.name, r.spec)

theorem requirementOf_iff {item : Toml} {name s : String} :
    RequirementOf item name s ↔ requirementPair? item = some (name, s) := by
  constructor
  · rintro ⟨text, rfl, hr⟩
    rw [requirementPair?, Toml.str?, Option.bind_some, hr]
    rfl
  · intro h
    obtain ⟨⟨n, spec⟩, hr, heq⟩ := Option.map_eq_some_iff.mp h
    cases heq
    obtain ⟨text, htext, hr⟩ := Option.bind_eq_some_iff.mp hr
    cases item with
    | str s =>
      cases htext
      exact ⟨_, rfl, hr⟩
    | _ => cases htext

theorem projectEntries_array (items : List Toml) :
    projectEntries (.array items) = items.flatMap fun item => (requirementPair? item).toList := by
  rw [projectEntries, List.map_filterMap, List.filterMap_eq_flatMap_toList]
  rfl

namespace DependencySource

/-- The entries of a place. -/
def pairs : DependencySource → List (String × String)
  | .requirements items => projectEntries (.array items)
  | .entries t => tomlEntries t

/-- The names of a table differ. -/
def Distinct : DependencySource → Prop
  | .requirements _ => True
  | .entries t => t.names.Nodup

/-- What a place declares is its last entry under a name. -/
theorem binds_iff {source : DependencySource} (h : source.Distinct) (name s : String) :
    source.Binds name s ↔ Table.get? source.pairs.reverse name = some s := by
  cases source with
  | requirements items =>
    have hitem : ∀ item ∈ items, ∀ s, RequirementOf item name s
        ↔ Table.get? (requirementPair? item).toList.reverse name = some s := by
      intro item _ s
      rw [requirementOf_iff]
      cases requirementPair? item with
      | none => simp [Table.get?]
      | some e => simp [Table.get?, Prod.ext_iff]
    rw [pairs, projectEntries_array, ← lastBinds_iff hitem]
    refine ⟨fun h => ?_, .requirement⟩
    cases h with
    | requirement hlast => exact hlast
  | entries t =>
    rw [pairs, tomlEntries_eq, Table.get?_reverse (Table.nodup_names_mapSome h spec?),
      Table.get?_mapSome h, Option.bind_eq_some_iff]
    simp only [spec?_eq_some_iff]
    constructor
    · intro h
      cases h with
      | entry hget hgives => exact ⟨_, hget, hgives⟩
    · rintro ⟨v, hget, hgives⟩
      exact .entry hget hgives

theorem names_pairs (source : DependencySource) : Table.names source.pairs = source.names := by
  cases source with
  | requirements items =>
    rw [pairs, names, projectEntries, Table.names, List.map_map, List.map_filterMap]
    refine List.filterMap_congr fun item _ => ?_
    cases item.str? <;> rfl
  | entries t =>
    rw [pairs, names, tomlEntries, Table.names, List.map_filterMap]
    refine List.filterMap_congr fun e _ => ?_
    obtain ⟨name, v⟩ := e
    cases v <;> rfl

theorem mem_names_iff {source : DependencySource} (h : source.Distinct) (name : String) :
    name ∈ source.names ↔ ∃ s, source.Binds name s := by
  rw [← names_pairs]
  simp only [binds_iff h]
  rw [← Option.isSome_iff_exists, ← not_iff_not, Bool.not_eq_true, Option.isSome_eq_false_iff,
    Option.isNone_iff_eq_none, Table.get?_eq_none_iff]
  simp [Table.names]

theorem distinct_of_mem_all {t : Table Toml} (ht : Toml.Distinct (.table t)) :
    ∀ source ∈ all t, source.Distinct := by
  have htables : ∀ path, (tableOf ((Toml.table t).at? path)).names.Nodup :=
    fun path => nodup_names_tableOf fun v hv => ht.at? hv
  have hproject : (ofProject ((Toml.table t).at? ["project", "dependencies"])).Distinct := by
    have htable := htables ["project", "dependencies"]
    unfold ofProject
    split
    · trivial
    · exact htable
  intro source hsource
  simp only [all, List.mem_cons, List.not_mem_nil, or_false] at hsource
  rcases hsource with rfl | rfl | rfl
  · exact hproject
  · exact htables _
  · exact Table.nodup_names_erase (htables _) "python"

theorem not_binds_erase (t : Table Toml) (name s : String) :
    ¬ Binds (.entries (t.erase name)) name s := by
  rintro (_ | ⟨hget, -⟩)
  rw [Table.get?_erase_self] at hget
  cases hget

/-- The dependencies are the entries of the three places in turn. -/
theorem ofPyproject_eq {room : Nat} {text : List Char} {t : Table Toml}
    (h : Toml.read room text = .ok t) :
    ofPyproject room text = .ok (Table.ofEntries ((all t).flatMap pairs)) := by
  have hproject : (((Toml.tableAt t "project").get? "dependencies").map projectEntries).getD []
      = (ofProject ((Toml.table t).at? ["project", "dependencies"])).pairs := by
    rw [Toml.at?_tableAt, Toml.at?_singleton]
    cases (Toml.tableAt t "project").get? "dependencies" with
    | none => rfl
    | some v => cases v <;> rfl
  have hpoetry : tableOf ((Toml.table t).at? ["tool", "poetry", "dependencies"])
      = Toml.tableAt (Toml.tableAt (Toml.tableAt t "tool") "poetry") "dependencies" := by
    rw [Toml.at?_tableAt, Toml.at?_tableAt, tableOf_at?]
  rw [ofPyproject, h]
  show Except.ok _ = Except.ok _
  rw [hproject, tomlEntries_eq, tomlEntries_eq, ← Table.mapSome_erase, ← hpoetry, ← tableOf_at?,
    ← Table.ofEntries_append, ← Table.ofEntries_append]
  simp [all, pairs, tomlEntries_eq]

end DependencySource

/-- The dependencies of a text that describes tables of any shape: a name has the specifier of the
last place that declares it, names stand in the order of their first declarations, and an entry for
the interpreter is only left out of the last place. -/
theorem ofPyproject_precedence {room : Nat} {text : List Char} {t : Table Toml}
    (h : Toml.read room text = .ok t) :
    ∃ deps, ofPyproject room text = .ok deps
      ∧ (∀ name s, deps.get? name = some s ↔ LastBinds Binds (DependencySource.all t) name s)
      ∧ deps.names = ((DependencySource.all t).flatMap DependencySource.names).eraseDups
      ∧ (∀ source ∈ DependencySource.all t, ∀ name,
        name ∈ source.names ↔ ∃ s, source.Binds name s)
      ∧ ∀ s, LastBinds Binds ((DependencySource.all t).take 2) "python" s →
        deps.get? "python" = some s := by
  have hdistinct := distinct_of_mem_all (Toml.distinct_of_read h)
  have hget : ∀ name s, Table.get? (Table.ofEntries ((DependencySource.all t).flatMap pairs)) name
      = some s ↔ LastBinds Binds (DependencySource.all t) name s := by
    intro name s
    rw [Table.get?_ofEntries, ← lastBinds_iff]
    exact fun source hsource s => binds_iff (hdistinct source hsource) name s
  refine ⟨_, ofPyproject_eq h, hget, ?_, fun source hsource => mem_names_iff (hdistinct _ hsource),
    fun s hs => (hget "python" s).mpr ?_⟩
  · rw [Table.names_ofEntries, Table.names, List.map_flatMap]
    exact congrArg List.eraseDups (List.flatMap_congr fun source _ => names_pairs source)
  · rw [← List.take_append_drop 2 (DependencySource.all t)]
    exact hs.append (List.forall_mem_singleton.mpr fun other => not_binds_erase _ "python" other)

/-- Three places that declare some names more than once. -/
def rivalText : List Char :=
  "[project]
dependencies = [\"python >= 3\", \"rich==13\", 4, \"rich>=14 ; x\", \"-\"]
[dependencies]
rich = 5
flask = \x7bversion = \"2\"\x7d
[tool.poetry.dependencies]
python = \"^3.11\"
attrs = \"1\"
flask = \x7bgit = \"x\"\x7d
rich = [\"y\"]
".toList

/-- A requirement of the interpreter stays, and what is declared twice has the later specifier at
the earlier place. -/
theorem ofPyproject_precedence_rivals : ∃ t, Toml.read ({} : Stack).tables rivalText = .ok t
    ∧ LastBinds Binds ((DependencySource.all t).take 2) "python" ">= 3"
    ∧ ∃ deps, ofPyproject ({} : Stack).tables rivalText = .ok deps
      ∧ deps.names = ["python", "rich", "flask", "attrs"]
      ∧ deps.get? "python" = some ">= 3"
      ∧ LastBinds Binds (DependencySource.all t) "rich" ">=14"
      ∧ LastBinds Binds (DependencySource.all t) "flask" "*" := by
  have hplaces : (Toml.read ({} : Stack).tables rivalText).toOption.map
      (fun t => (DependencySource.all t).map pairs)
        = some [[("python", ">= 3"), ("rich", "==13"), ("rich", ">=14")], [("flask", "2")],
          [("attrs", "1"), ("flask", "*")]] := by
    -- the characters of a long literal are read off it, which is quicker than decoding its bytes
    unfold rivalText
    rw [String.toList_ofList]
    decide +kernel
  obtain ⟨t, hread, hpairs⟩ := exists_ok_of_map_toOption hplaces
  have hbinds : ∀ source ∈ (DependencySource.all t).take 2, ∀ s,
      source.Binds "python" s ↔ Table.get? source.pairs.reverse "python" = some s :=
    fun source hsource => binds_iff (distinct_of_mem_all (Toml.distinct_of_read hread) source
      (List.mem_of_mem_take hsource)) "python"
  have hpython : LastBinds Binds ((DependencySource.all t).take 2) "python" ">= 3" := by
    rw [lastBinds_iff hbinds, List.flatMap_def, List.map_take, hpairs]
    decide
  have hvalue : ofPyproject ({} : Stack).tables rivalText
      = .ok [("python", ">= 3"), ("rich", ">=14"), ("flask", "*"), ("attrs", "1")] := by
    rw [ofPyproject_eq hread, List.flatMap_def, hpairs]
    decide
  obtain ⟨deps, hdeps, hget, -, -, hkept⟩ := ofPyproject_precedence hread
  cases hdeps.symm.trans hvalue
  exact ⟨t, hread, hpython, _, hdeps, rfl, hkept _ hpython, (hget _ _).mp (by decide),
    (hget _ _).mp (by decide)⟩

end Manifest

end RepoSurvey
