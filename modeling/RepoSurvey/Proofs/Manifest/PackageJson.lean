import RepoSurvey.Manifest.Dependencies
import RepoSurvey.Proofs.Json.Encoding
import RepoSurvey.Proofs.Table

/-!
# The dependencies of a package

A package names its dependencies and those for development in two objects, in which only texts are
specifiers.

* `Manifest.Interspersed`: texts by name, among members of other kinds;
* `Manifest.ofPackageJson_of_encodes`: the dependencies are read back from every text of a package,
  with their specifiers overridden by those for development.
-/

namespace RepoSurvey.Manifest

/-- The members with texts are these, in this order; between them there may be members of other
kinds. -/
inductive Interspersed : List (String × String) → List (String × Json) → Prop
  | nil : Interspersed [] []
  | text {texts : List (String × String)} {members : List (String × Json)} (name s : String) :
      Interspersed texts members → Interspersed ((name, s) :: texts) ((name, .str s) :: members)
  | other {texts : List (String × String)} {members : List (String × Json)} (name : String)
      {value : Json} : (∀ s, value ≠ .str s) → Interspersed texts members →
      Interspersed texts ((name, value) :: members)

theorem textEntries_eq_mapSome (members : Table Json) :
    textEntries members = Table.mapSome Json.str? members := rfl

theorem Interspersed.textEntries_eq {texts : List (String × String)}
    {members : List (String × Json)} (h : Interspersed texts members) :
    textEntries members = texts := by
  induction h with
  | nil => rfl
  | text name s _ ih =>
    rw [textEntries_eq_mapSome, Table.mapSome_cons, ← textEntries_eq_mapSome, ih]
    rfl
  | @other texts members name value hvalue _ ih =>
    have hnone : value.str? = none := by
      cases value with
      | str s => exact absurd rfl (hvalue s)
      | _ => rfl
    rw [textEntries_eq_mapSome, Table.mapSome_cons, ← textEntries_eq_mapSome, ih, hnone]
    rfl

variable {members deps devDeps : List (String × Json)} {runtime dev : List (String × String)}

theorem jsonSection_eq (hnames : (Table.names members).Nodup) {name : String}
    (hmem : (name, .obj deps) ∈ members) (h : Interspersed runtime deps) :
    jsonSection (.obj members) name = runtime := by
  have hget : (Json.obj members).get? name = some (.obj deps) :=
    Table.get?_eq_some_of_mem hnames hmem
  rw [jsonSection, hget]
  exact h.textEntries_eq

/-- Of a package with its dependencies and those for development in two objects, anywhere among its
members and whichever comes first, every text is read as the first in order, with the specifiers
of the second for the names in both, and then the others of the second. What is not a text declares
nothing, neither here nor there. -/
theorem ofPackageJson_of_encodes {nesting : Nat} {text : List Char}
    (hruntime : Interspersed runtime deps)
    (hdev : Interspersed dev devDeps) (hdeps : ("dependencies", .obj deps) ∈ members)
    (hdevDeps : ("devDependencies", .obj devDeps) ∈ members)
    (htext : Json.Encodes (.obj members) text)
    (hfits : Json.Fits ⟨some digitLimit, some nesting⟩ (.obj members)) :
    ofPackageJson nesting text = .ok ((runtime.map fun e => (e.1, (Table.get? dev e.1).getD e.2))
      ++ dev.filter fun e => e.1 ∉ Table.names runtime) := by
  obtain ⟨hnames, hvalues⟩ := htext.of_obj
  have hnodup : ∀ {name texts inner}, (name, Json.obj inner) ∈ members →
      Interspersed texts inner → (Table.names texts).Nodup := by
    intro name texts inner hmem htexts
    obtain ⟨part, hpart⟩ := hvalues _ hmem
    rw [← htexts.textEntries_eq]
    exact Table.nodup_names_mapSome hpart.of_obj.1 Json.str?
  have hread := Json.read_of_encodes htext hfits
  have hsection := jsonSection_eq hnames hdeps hruntime
  have hsectionDev := jsonSection_eq hnames hdevDeps hdev
  rw [ofPackageJson, hread]
  show Except.ok _ = Except.ok _
  rw [hsection, hsectionDev, Table.ofEntries_eq_self (hnodup hdeps hruntime),
    Table.putAll_eq_override (hnodup hdeps hruntime) (hnodup hdevDeps hdev)]

/-- A number that is written with a power of ten. -/
def tinyNumber : Json.Fractional where
  negative := true
  whole := 1
  fraction := ['5']
  power := some (true, ['0', '7'])
  isDigit_fraction := List.forall_mem_singleton.mpr rfl
  isDigit_power := by simp
  not_whole := by decide

def sharedRuntime : List (String × Json) :=
  [("a", .str "^1"), ("x", .arr [.int 1, .int 20]), ("b", .str "\"\\\n")]

def sharedDev : List (String × Json) := [("b", .str "2"), ("a", .null), ("c\u00e9", .str "😀")]

/-- A package whose two objects share names. -/
def sharedNames : List (String × Json) :=
  [("devDependencies", .obj sharedDev), ("weight", .float tinyNumber.value),
    ("dependencies", .obj sharedRuntime)]

def sharedText : List Char :=
  ("\x7b\"devDependencies\": \x7b\"b\": \"2\", \"a\": null, \"c\\u00e9\": \"\\ud83d\\ude00\"\x7d, "
    ++ "\"weight\": -1.5e-07, "
    ++ "\"dependencies\": \x7b\"a\": \"^1\", \"x\": [1, 20], \"b\": \"\\\"\\\\\\n\"\x7d\x7d").toList

theorem encodes_sharedNames : Json.Encodes (.obj sharedNames) sharedText := by
  have hnone : Json.Gaps [] := by decide
  have hspace : Json.Gaps [' '] := by decide
  have hlast : Json.Break [] := Or.inl rfl
  have hlist : Json.Encodes (.arr [.int 1, .int 20]) _ :=
    .arr (.cons hnone (.int 1) (.last hspace (.int 20) hlast))
  have hruntime : Json.Encodes (.obj sharedRuntime) _ :=
    .obj (by decide) (.cons true hnone hspace (.str true "^1") (.cons true hspace hspace hlist
      (.last true hspace hspace (.str true "\"\\\n") hlast)))
  have hdev : Json.Encodes (.obj sharedDev) _ :=
    .obj (by decide) (.cons true hnone hspace (.str true "2") (.cons true hspace hspace .null
      (.last true hspace hspace (.str true "😀") hlast)))
  have hall : Json.Encodes (.obj sharedNames) _ :=
    .obj (by decide) (.cons true hnone hspace hdev (.cons true hspace hspace (.float tinyNumber)
      (.last true hspace hspace hruntime hlast)))
  exact cast (congrArg (Json.Encodes _) (by decide +kernel)) hall

/-- A name in both objects keeps its place and takes the second specifier, unless there is none. -/
theorem ofPackageJson_of_encodes_shared : Json.Encodes (.obj sharedNames) sharedText
    ∧ Json.Fits ⟨some digitLimit, some 989⟩ (.obj sharedNames)
    ∧ ofPackageJson 989 sharedText = .ok [("a", "^1"), ("b", "2"), ("c\u00e9", "😀")] := by
  have hruntime : Interspersed [("a", "^1"), ("b", "\"\\\n")] sharedRuntime :=
    .text _ _ (.other _ (by simp) (.text _ _ .nil))
  have hdev : Interspersed [("b", "2"), ("c\u00e9", "😀")] sharedDev :=
    .text _ _ (.other _ (by simp) (.text _ _ .nil))
  have hlist : Json.Fits ⟨some digitLimit, some 987⟩ (.arr [.int 1, .int 20]) := by
    refine .arr rfl ?_
    simp only [List.forall_mem_cons, Json.fits_int]
    exact ⟨by decide, by decide, by simp⟩
  have hfits : Json.Fits ⟨some digitLimit, some 989⟩ (.obj sharedNames) := by
    refine .obj rfl ?_
    simp only [sharedNames, List.forall_mem_cons]
    refine ⟨.obj rfl ?_, .float _, .obj rfl ?_, by simp⟩
    · simp only [sharedDev, List.forall_mem_cons]
      exact ⟨.str _, .null, .str _, by simp⟩
    · simp only [sharedRuntime, List.forall_mem_cons]
      exact ⟨.str _, hlist, .str _, by simp⟩
  have hread := ofPackageJson_of_encodes hruntime hdev (by simp [sharedNames])
    (by simp [sharedNames]) encodes_sharedNames hfits
  exact ⟨encodes_sharedNames, hfits, hread.trans (by decide +kernel)⟩

end RepoSurvey.Manifest
