import RepoSurvey.Proofs.Config.Values
import RepoSurvey.Proofs.Number.IntegerLiteral
import RepoSurvey.Proofs.Path.Segments
import RepoSurvey.Proofs.Table
import RepoSurvey.Proofs.Text.Trim

/-!
# A config from the environment, exactly

A variable that holds no integer where one is expected makes the whole fail, whatever is given
explicitly. Otherwise every field has its explicit value or what its variable stands for.

* `Config.given?`, `Config.Means`, `Config.Misread`: what a variable holds, and what it stands for;
* `Config.environmentValues_step`: what one setting makes of those behind it;
* `Config.environmentValues_eq_ok`, `Config.environmentValues_eq_error`: all variables;
* `Config.Merged`: the value of a field;
* `Config.ofValues_congr`, `Config.failures_ofValues`: a config depends on the values of its fields,
  and their failures come in the order of the settings;
* `Config.ofEnvironment_exact`: the config, or why there is none.
-/

namespace RepoSurvey.Config

open Number (IntegerLiteral)

/-! ## Variables -/

/-- What the variable of a setting holds, without blanks around it, unless it is blank. -/
def given? (environment : Table String) (s : Setting) : Option (List Char) :=
  ((environment.get? s.variableName).map fun raw => Text.trim raw.toList).filter (· ≠ [])

/-- The words that stand for true, in lower case. -/
def trueWords : List (List Char) := ["1".toList, "true".toList, "yes".toList]

/-- The parts between commas, without blanks around them, except for those that are blank. -/
def commaParts (text : List Char) : List (List Char) :=
  ((text.splitOn ',').map Text.trim).filter (· ≠ [])

/-- What a text stands for. -/
inductive Means (text : List Char) : Kind → Json → Prop
  | integer {n : Int} : IntegerLiteral digitLimit text n → Means text .integer (.int n)
  | truth {b : Bool} : (b = true ↔ text.map Char.toLower ∈ trueWords) → Means text .truth (.bool b)
  | nameList : Means text .nameList (.strings ((commaParts text).map String.ofList))

/-- A variable that should hold an integer holds something else. -/
structure Misread (environment : Table String) (s : Setting) (text : List Char) : Prop where
  kind : s.kind = .integer
  given : given? environment s = some text
  not_integer : ∀ n, ¬ IntegerLiteral digitLimit text n

/-- What the environment gives for a setting. -/
inductive FromVariable (environment : Table String) (s : Setting) : Option Json → Prop
  | absent : given? environment s = none → FromVariable environment s none
  | present {text : List Char} {j : Json} : given? environment s = some text →
      Means text s.kind j → FromVariable environment s (some j)

variable {environment : Table String} {s : Setting} {text : List Char} {j : Json}

theorem trim_of_given? (h : given? environment s = some text) : Text.trim text = text := by
  obtain ⟨raw, _, rfl⟩ := Option.map_eq_some_iff.mp (Option.filter_eq_some_iff.mp h).1
  exact Text.trim_eq_self_iff.mpr ⟨Text.head?_trim, Text.getLast?_trim⟩

/-- The two letters whose lower case has an ASCII letter in it, without being of ASCII, make no
difference to words without that letter. -/
theorem lowerForKeywords_eq_iff {word : List Char}
    (h : ∀ c ∈ ['k', 'i', '\u212a', '\u0130'], c ∉ word) :
    Text.lowerForKeywords text = word ↔ text.map Char.toLower = word := by
  have hremote : ∀ c letter, c ∈ text → Char.toLower c ∉ word → letter ∉ word →
      letter ∈ Text.asciiLower c →
      (Text.lowerForKeywords text = word ↔ text.map Char.toLower = word) := by
    intro c letter hc hlower hletter hmem
    constructor
    · rintro rfl
      exact absurd (List.mem_flatMap.mpr ⟨c, hc, hmem⟩) hletter
    · rintro rfl
      exact absurd (List.mem_map_of_mem hc) hlower
  by_cases hkelvin : '\u212a' ∈ text
  · exact hremote '\u212a' 'k' hkelvin (h _ (by decide)) (h _ (by decide)) (by decide)
  by_cases hdotted : '\u0130' ∈ text
  · exact hremote '\u0130' 'i' hdotted (h _ (by decide)) (h _ (by decide)) (by decide)
  have hall : Text.lowerForKeywords text = text.map Char.toLower := by
    rw [Text.lowerForKeywords, List.map_eq_flatMap]
    refine List.flatMap_congr fun c hc => ?_
    have hnotKelvin : c ≠ '\u212a' := fun heq => hkelvin (heq ▸ hc)
    have hnotDotted : c ≠ '\u0130' := fun heq => hdotted (heq ▸ hc)
    rw [Text.asciiLower, if_neg hnotKelvin, if_neg hnotDotted]
  rw [hall]

/-! ## What is read -/

theorem nameList_eq (text : List Char) : nameList text = (commaParts text).map String.ofList := by
  rw [nameList, commaParts, Text.splitAtEvery_eq_splitOnP, List.splitOn_eq_splitOnP]
  induction (text.splitOnP (· == ',')).map Text.trim with
  | nil => rfl
  | cons piece pieces ih =>
    cases piece with
    | nil => exact ih
    | cons c rest => exact congrArg (String.ofList (c :: rest) :: ·) ih

theorem isTrueWord_iff : (String.ofList (Text.lowerForKeywords text) == "1"
      || String.ofList (Text.lowerForKeywords text) == "true"
      || String.ofList (Text.lowerForKeywords text) == "yes") = true
    ↔ text.map Char.toLower ∈ trueWords := by
  have hword : ∀ word : String, word.toList ∈ trueWords →
      (String.ofList (Text.lowerForKeywords text) = word
        ↔ text.map Char.toLower = word.toList) := by
    intro word hword
    have hplain : ∀ w ∈ trueWords, ∀ c ∈ ['k', 'i', '\u212a', '\u0130'], c ∉ w := by
      simp [trueWords]
    rw [← lowerForKeywords_eq_iff (hplain _ hword)]
    constructor
    · rintro rfl
      rw [String.toList_ofList]
    · intro h
      rw [h, String.ofList_toList]
  rw [Bool.or_eq_true, Bool.or_eq_true, beq_iff_eq, beq_iff_eq, beq_iff_eq, hword "1" (by decide),
    hword "true" (by decide), hword "yes" (by decide), or_assoc]
  simp [trueWords]

/-- A variable is read as what it stands for, or it is no integer where one is expected. -/
theorem value_cases (htrim : Text.trim text = text) :
    (∃ j, s.value text = .ok j ∧ Means text s.kind j)
      ∨ s.kind = .integer ∧ (∀ n, ¬ IntegerLiteral digitLimit text n)
        ∧ s.value text = .error (.notInteger s.variableName (String.ofList text)) := by
  rw [Setting.value]
  cases s.kind with
  | integer =>
    dsimp only
    cases hread : Number.setting? digitLimit text with
    | some n => exact Or.inl ⟨_, rfl, .integer ((Number.setting?_eq_some_iff htrim).mp hread)⟩
    | none =>
      refine Or.inr ⟨rfl, fun n hn => ?_, rfl⟩
      rw [(Number.setting?_eq_some_iff htrim).mpr hn] at hread
      cases hread
  | truth => exact Or.inl ⟨_, rfl, .truth isTrueWord_iff⟩
  | nameList =>
    refine Or.inl ⟨_, rfl, ?_⟩
    rw [nameList_eq]
    exact .nameList

/-- What a setting makes of what comes of the settings behind it. -/
inductive Step (environment : Table String) (s : Setting)
    (behind result : Except ConfigError (Table Json)) : Prop
  | absent : FromVariable environment s none → result = behind → Step environment s behind result
  | present {j : Json} : FromVariable environment s (some j) →
      result = behind.map ((s.name, j) :: ·) → Step environment s behind result
  | misread {text : List Char} : Misread environment s text →
      result = .error (.notInteger s.variableName (String.ofList text)) →
      Step environment s behind result

theorem environmentValues_step (environment : Table String) (s : Setting) (ss : List Setting) :
    Step environment s (environmentValues environment ss)
      (environmentValues environment (s :: ss)) := by
  rw [environmentValues]
  cases hgiven : given? environment s with
  | none =>
    refine .absent (.absent hgiven) (if_pos ?_)
    cases hget : environment.get? s.variableName with
    | none => rfl
    | some raw => simpa [given?, hget, Option.filter_some] using hgiven
  | some text =>
    obtain ⟨raw, hraw, rfl⟩ := Option.map_eq_some_iff.mp (Option.filter_eq_some_iff.mp hgiven).1
    have hne : (Text.trim raw.toList).isEmpty = false := by
      simpa using (Option.filter_eq_some_iff.mp hgiven).2
    rw [hraw, Option.getD_some, hne, if_neg Bool.false_ne_true]
    rcases value_cases (s := s) (trim_of_given? hgiven) with
      ⟨j, hj, hmeans⟩ | ⟨hkind, hnone, herror⟩
    · rw [hj]
      exact .present (.present hgiven hmeans) rfl
    · rw [herror]
      exact .misread ⟨hkind, hgiven, hnone⟩ rfl

theorem FromVariable.not_misread {o : Option Json} (h : FromVariable environment s o) :
    ¬ Misread environment s text := by
  rintro ⟨hkind, hgiven, hnone⟩
  cases h with
  | absent habsent => cases habsent.symm.trans hgiven
  | present hpresent hmeans =>
    cases hpresent.symm.trans hgiven
    rw [hkind] at hmeans
    cases hmeans with
    | integer hn => exact hnone _ hn

/-- Variables that are all read give each setting its value. -/
theorem environmentValues_eq_ok {ss : List Setting} (hnames : (ss.map (·.name)).Nodup)
    {values : Table Json} (h : environmentValues environment ss = .ok values) :
    values.names.Sublist (ss.map (·.name))
      ∧ ∀ s ∈ ss, FromVariable environment s (values.get? s.name) := by
  induction ss generalizing values with
  | nil =>
    cases h
    exact ⟨.slnil, fun s hs => absurd hs List.not_mem_nil⟩
  | cons s ss ih =>
    obtain ⟨hname, hnames⟩ := List.nodup_cons.mp hnames
    cases environmentValues_step environment s ss with
    | absent hvariable hresult =>
      obtain ⟨hsub, hall⟩ := ih hnames (hresult ▸ h)
      refine ⟨hsub.cons _, List.forall_mem_cons.mpr ⟨?_, hall⟩⟩
      rwa [Table.get?_eq_none_iff.mpr fun hmem => hname (hsub.subset hmem)]
    | @present j hvariable hresult =>
      obtain ⟨rest, hrest, rfl⟩ := map_eq_ok_iff.mp (hresult ▸ h)
      obtain ⟨hsub, hall⟩ := ih hnames hrest
      refine ⟨hsub.cons_cons _, List.forall_mem_cons.mpr ⟨?_, fun t ht => ?_⟩⟩
      · rwa [Table.get?, if_pos rfl]
      · have hne : s.name ≠ t.name := fun heq => hname (List.mem_map.mpr ⟨t, ht, heq.symm⟩)
        rw [Table.get?, if_neg hne]
        exact hall t ht
    | misread _ hresult => cases hresult.symm.trans h

/-- The first variable that is misread is the one that is named. -/
theorem environmentValues_eq_error {ss : List Setting} {e : ConfigError}
    (h : environmentValues environment ss = .error e) : ∃ front s back text,
      ss = front ++ s :: back ∧ Misread environment s text
        ∧ (∀ t ∈ front, ∀ r, ¬ Misread environment t r)
        ∧ e = .notInteger s.variableName (String.ofList text) := by
  induction ss with
  | nil => cases h
  | cons s ss ih =>
    -- a setting with a value, or without one, is passed
    have hpassed : environmentValues environment ss = .error e →
        (∀ r, ¬ Misread environment s r) → ∃ front t back text, s :: ss = front ++ t :: back
          ∧ Misread environment t text ∧ (∀ u ∈ front, ∀ r, ¬ Misread environment u r)
          ∧ e = .notInteger t.variableName (String.ofList text) := by
      intro hrest hread
      obtain ⟨front, t, back, text, rfl, hmisread, hfront, rfl⟩ := ih hrest
      exact ⟨s :: front, t, back, text, rfl, hmisread, List.forall_mem_cons.mpr ⟨hread, hfront⟩,
        rfl⟩
    cases environmentValues_step environment s ss with
    | absent hvariable hresult => exact hpassed (hresult ▸ h) fun r => hvariable.not_misread
    | present hvariable hresult =>
      refine hpassed ?_ fun r => hvariable.not_misread
      rw [hresult] at h
      cases hrest : environmentValues environment ss with
      | ok rest =>
        rw [hrest] at h
        cases h
      | error e' =>
        rw [hrest] at h
        exact congrArg _ (Except.error.inj h)
    | misread hmisread hresult =>
      cases hresult.symm.trans h
      exact ⟨[], s, ss, _, rfl, hmisread, List.forall_mem_nil _, rfl⟩

/-! ## Values of fields -/

/-- The value of a field: one that is given explicitly and is not null, or else what the environment
gives. -/
inductive Merged (environment : Table String) (explicit : Table Json) (s : Setting) :
    Option Json → Prop
  | explicit {j : Json} : explicit.get? s.name = some j → j ≠ .null →
      Merged environment explicit s (some j)
  | fromVariable {o : Option Json} : (∀ j, explicit.get? s.name = some j → j = .null) →
      FromVariable environment s o → Merged environment explicit s o

theorem isNull_iff : isNull j = true ↔ j = .null := by
  cases j <;> simp [isNull]

variable {explicit values values' : Table Json}

theorem merged_putAll (hvalues : values.names.Nodup) (hexplicit : explicit.names.Nodup)
    (h : FromVariable environment s (values.get? s.name)) : Merged environment explicit s
      ((values.putAll (explicit.filter fun e => !isNull e.2)).get? s.name) := by
  have hsub : (Table.names (explicit.filter fun e => !isNull e.2)).Nodup :=
    hexplicit.sublist (List.filter_sublist.map _)
  rw [Table.get?_putAll hvalues hsub, Table.get?_filter hexplicit fun j => !isNull j]
  cases hgiven : explicit.get? s.name with
  | none =>
    refine .fromVariable (fun j hj => ?_) h
    rw [hgiven] at hj
    cases hj
  | some j =>
    by_cases hnull : j = .null
    · refine .fromVariable (fun j' hj' => ?_) ?_
      · rw [hgiven] at hj'
        cases hj'
        exact hnull
      · rw [hnull]
        exact h
    · have hkept : isNull j = false := by
        rw [← Bool.not_eq_true, isNull_iff]
        exact hnull
      rw [Option.filter_some, hkept]
      exact .explicit hgiven hnull

theorem Means.unique {kind : Kind} {j' : Json} (htrim : Text.trim text = text)
    (h : Means text kind j) (h' : Means text kind j') : j = j' := by
  cases h with
  | integer hn =>
    cases h' with
    | integer hm =>
      rw [← Number.setting?_eq_some_iff htrim] at hn hm
      rw [Option.some.inj (hn.symm.trans hm)]
  | truth hb =>
    cases h' with
    | truth hb' => rw [Bool.eq_iff_iff.mpr (hb.trans hb'.symm)]
  | nameList =>
    cases h'
    rfl

theorem FromVariable.unique {o o' : Option Json} (h : FromVariable environment s o)
    (h' : FromVariable environment s o') : o = o' := by
  cases h with
  | absent hgiven =>
    cases h' with
    | absent => rfl
    | present hgiven' => cases hgiven.symm.trans hgiven'
  | present hgiven hmeans =>
    cases h' with
    | absent hgiven' => cases hgiven.symm.trans hgiven'
    | present hgiven' hmeans' =>
      cases hgiven.symm.trans hgiven'
      rw [hmeans.unique (trim_of_given? hgiven) hmeans']

/-- A field has one value. -/
theorem Merged.unique {o o' : Option Json} (h : Merged environment explicit s o)
    (h' : Merged environment explicit s o') : o = o' := by
  cases h with
  | explicit hj hne =>
    cases h' with
    | explicit hj' => exact hj.symm.trans hj'
    | fromVariable hnull => exact absurd (hnull _ hj) hne
  | fromVariable hnull hvariable =>
    cases h' with
    | explicit hj hne => exact absurd (hnull _ hj) hne
    | fromVariable _ hvariable' => exact hvariable.unique hvariable'

/-- A config depends on the values of its fields only. -/
theorem ofValues_congr (h : ∀ s ∈ settings, values.get? s.name = values'.get? s.name) :
    ofValues values = ofValues values' := by
  have hfield : ∀ {α : Type} (default : α) (check : Json → Checked α) (name : String),
      name ∈ settings.map (·.name) → (FieldName.same name).orElse default check values
        = (FieldName.same name).orElse default check values' := by
    intro α default check name hname
    obtain ⟨s, hs, rfl⟩ := List.mem_map.mp hname
    exact FieldName.orElse_congr (h s hs) (h s hs)
  rw [ofValues, ofValues, hfield _ _ "god_directory_threshold" (by decide),
    hfield _ _ "max_nesting_depth" (by decide), hfield _ _ "barrel_bloat_threshold" (by decide),
    hfield _ _ "catch_all_threshold" (by decide), hfield _ _ "mixed_export_min_named" (by decide),
    hfield _ _ "naming_min_files" (by decide), hfield _ _ "naming_min_bucket" (by decide),
    hfield _ _ "max_file_size" (by decide), hfield _ _ "context_radius" (by decide),
    hfield _ _ "batch_size" (by decide), hfield _ _ "extra_skip_dirs" (by decide),
    hfield _ _ "show_progress" (by decide)]

/-! ## Failures -/

/-- What stands in the way of a field stands at the field. -/
theorem location_of_mem_failures {α : Type} {name : String} {default : α}
    {check : Json → Checked α} :
    ∀ f ∈ ((FieldName.same name).orElse default check values).failures,
      f.location.head? = some (.field name) := by
  intro f hf
  have hunder : ∀ x : Checked α, f ∈ (x.under (.field name)).failures →
      f.location.head? = some (.field name) := by
    intro x hf
    cases x with
    | valid a => cases hf
    | invalid fs =>
      obtain ⟨g, _, rfl⟩ := List.mem_map.mp hf
      rfl
  rw [FieldName.orElse, FieldName.find?] at hf
  cases hget : values.get? (FieldName.same name).written with
  | some j =>
    rw [hget] at hf
    exact hunder _ hf
  | none =>
    have hplain : values.get? (FieldName.same name).plain = none := hget
    rw [hget, hplain] at hf
    cases hf

/-- Failures in the order of some settings, each at the setting it is about. -/
inductive InOrder : List Setting → List Failure → Prop
  | nil : InOrder [] []
  | cons {s : Setting} {ss : List Setting} {group fs : List Failure} :
      (∀ f ∈ group, f.location.head? = some (.field s.name)) → InOrder ss fs →
      InOrder (s :: ss) (group ++ fs)

theorem InOrder.single {group : List Failure}
    (h : ∀ f ∈ group, f.location.head? = some (.field s.name)) : InOrder [s] group := by
  have hgroup := InOrder.cons h .nil
  rwa [List.append_nil] at hgroup

theorem inOrder_ofValues (values : Table Json) :
    InOrder settings (ofValues values).failures := by
  simp only [ofValues, Checked.failures_seq, Checked.failures_map, List.append_assoc]
  exact .cons location_of_mem_failures <| .cons location_of_mem_failures <|
    .cons location_of_mem_failures <| .cons location_of_mem_failures <|
    .cons location_of_mem_failures <| .cons location_of_mem_failures <|
    .cons location_of_mem_failures <| .cons location_of_mem_failures <|
    .cons location_of_mem_failures <| .cons location_of_mem_failures <|
    .cons location_of_mem_failures <| .single location_of_mem_failures

/-! ## The whole -/

/-- The least value that a setting can have. -/
def Setting.least (s : Setting) : Int := if s.name = "context_radius" then 0 else 1

theorem Setting.least_le_one (s : Setting) : s.least ≤ 1 := by
  rw [least]
  split <;> omega

theorem least_le_toJson (c : Config) : ∀ s ∈ settings, s.kind = .integer →
    ∃ n : Int, c.toJson.get? s.name = some (.int n) ∧ s.least ≤ n := by
  have hpositive (s : Setting) (n : Positive) : s.least ≤ (n.val : Nat) :=
    Int.le_trans s.least_le_one (by exact_mod_cast n.property)
  simp only [settings, List.forall_mem_cons]
  refine ⟨fun _ => ⟨_, rfl, hpositive _ _⟩, fun _ => ⟨_, rfl, hpositive _ _⟩,
    fun _ => ⟨_, rfl, hpositive _ _⟩, fun _ => ⟨_, rfl, hpositive _ _⟩,
    fun _ => ⟨_, rfl, hpositive _ _⟩, fun _ => ⟨_, rfl, hpositive _ _⟩,
    fun _ => ⟨_, rfl, hpositive _ _⟩, fun _ => ⟨_, rfl, hpositive _ _⟩,
    fun _ => ⟨_, rfl, ?_⟩, fun _ => ⟨_, rfl, hpositive _ _⟩, nofun, nofun, List.forall_mem_nil _⟩
  exact Int.natCast_nonneg c.contextRadius

/-- A config, or the failures that stand in its way. -/
def outcome : Checked Config → Except ConfigError Config
  | .valid c => .ok c
  | .invalid fs => .error (.invalid fs)

/-- What comes of an environment and explicit values. -/
structure Exact (environment : Table String) (explicit : Table Json)
    (result : Except ConfigError Config) : Prop where
  /-- A variable that is misread makes the whole fail, whatever is given explicitly. -/
  notInteger_iff : (∃ name raw, result = .error (.notInteger name raw))
    ↔ ∃ s ∈ settings, ∃ text, Misread environment s text
  /-- The first one is named, with what it holds. -/
  notInteger : ∀ name raw, result = .error (.notInteger name raw) →
    ∃ front s back text, settings = front ++ s :: back ∧ Misread environment s text
      ∧ (∀ t ∈ front, ∀ r, ¬ Misread environment t r)
      ∧ name = s.variableName ∧ raw = String.ofList text
  /-- Otherwise every field has its value. -/
  merged : (∀ s ∈ settings, ∀ text, ¬ Misread environment s text) →
    ∃ values : Table Json, ∀ s ∈ settings, Merged environment explicit s (values.get? s.name)
  outcome : (∀ s ∈ settings, ∀ text, ¬ Misread environment s text) → ∀ values : Table Json,
    (∀ s ∈ settings, Merged environment explicit s (values.get? s.name)) →
    result = outcome (ofValues values)
  failures : ∀ fs, result = .error (.invalid fs) → InOrder settings fs
  limits : ∀ c, result = .ok c → ∀ s ∈ settings, s.kind = .integer →
    ∃ n : Int, c.toJson.get? s.name = some (.int n) ∧ s.least ≤ n

theorem ofEnvironment_eq (environment : Table String) (explicit : Table Json) :
    ofEnvironment environment explicit = environmentValues environment settings >>= fun values =>
      outcome (ofValues (values.putAll (explicit.filter fun e => !isNull e.2))) := by
  rw [ofEnvironment]
  refine congrArg (environmentValues environment settings >>= ·) (funext fun values => ?_)
  cases ofValues (values.putAll (explicit.filter fun e => !isNull e.2)) <;> rfl

theorem outcome_ne_notInteger (x : Checked Config) (name raw : String) :
    outcome x ≠ .error (.notInteger name raw) := by
  cases x <;> simp [outcome]

/-- Failures are all that is wrong with values. -/
theorem failures_of_outcome {x : Checked Config} {fs : List Failure}
    (h : outcome x = .error (.invalid fs)) : x.failures = fs := by
  cases x with
  | valid c => cases h
  | invalid gs =>
    cases h
    rfl

theorem ofEnvironment_exact (environment : Table String) (hexplicit : explicit.names.Nodup) :
    Exact environment explicit (ofEnvironment environment explicit) := by
  have hnames : (settings.map (·.name)).Nodup := by decide
  rw [ofEnvironment_eq]
  cases hvalues : environmentValues environment settings with
  | error e =>
    obtain ⟨front, s, back, text, hsplit, hmisread, hfront, rfl⟩ :=
      environmentValues_eq_error hvalues
    have hs : s ∈ settings := by
      rw [hsplit]
      exact List.mem_append_right front List.mem_cons_self
    exact {
      notInteger_iff := ⟨fun _ => ⟨s, hs, text, hmisread⟩, fun _ => ⟨_, _, rfl⟩⟩
      notInteger := fun name raw h => by
        cases h
        exact ⟨front, s, back, text, hsplit, hmisread, hfront, rfl, rfl⟩
      merged := fun hread => absurd hmisread (hread s hs text)
      outcome := fun hread => absurd hmisread (hread s hs text)
      failures := fun fs h => by cases h
      limits := fun c h => by cases h }
  | ok values =>
    obtain ⟨hsub, hvariables⟩ := environmentValues_eq_ok hnames hvalues
    have hmerged : ∀ s ∈ settings, Merged environment explicit s
        ((values.putAll (explicit.filter fun e => !isNull e.2)).get? s.name) :=
      fun s hs => merged_putAll (hnames.sublist hsub) hexplicit (hvariables s hs)
    exact {
      notInteger_iff := ⟨fun ⟨name, raw, h⟩ => absurd h (outcome_ne_notInteger _ name raw),
        fun ⟨s, hs, text, hmisread⟩ => absurd hmisread (hvariables s hs).not_misread⟩
      notInteger := fun name raw h => absurd h (outcome_ne_notInteger _ name raw)
      merged := fun _ => ⟨_, hmerged⟩
      outcome := fun _ values' hvalues' => congrArg Config.outcome
        (ofValues_congr fun s hs => (hmerged s hs).unique (hvalues' s hs))
      failures := fun fs h => failures_of_outcome h ▸ inOrder_ofValues _
      limits := fun c _ => least_le_toJson c }

/-- A variable that is misread, one that is blank, one with a number in another script, and one that
is given explicitly too. -/
def mixedEnvironment : Table String :=
  [("WHEELSCAN_BATCH_SIZE", " lots "), ("WHEELSCAN_MAX_FILE_SIZE", "  "),
    ("WHEELSCAN_CONTEXT_RADIUS", "+\u0661_0"), ("WHEELSCAN_NAMING_MIN_FILES", "0")]

theorem ofEnvironment_exact_mixed :
    (Table.names [("batch_size", Json.int 7), ("naming_min_files", .null)]).Nodup
    ∧ ofEnvironment mixedEnvironment [("batch_size", .int 7), ("naming_min_files", .null)]
      = .error (.notInteger "WHEELSCAN_BATCH_SIZE" "lots")
    ∧ ofEnvironment (mixedEnvironment.drop 1) [("batch_size", .int 7), ("naming_min_files", .null)]
      = .error (.invalid [⟨[.field "naming_min_files"], .belowLeast 1⟩])
    ∧ (∃ s ∈ settings, ∃ text, Misread mixedEnvironment s text)
    ∧ ∀ s ∈ settings, ∀ text, ¬ Misread (mixedEnvironment.drop 1) s text := by
  have hexplicit :
      (Table.names [("batch_size", Json.int 7), ("naming_min_files", .null)]).Nodup := by
    decide
  have hmisread : ofEnvironment mixedEnvironment
      [("batch_size", .int 7), ("naming_min_files", .null)]
        = .error (.notInteger "WHEELSCAN_BATCH_SIZE" "lots") := by
    decide +kernel
  have hinvalid : ofEnvironment (mixedEnvironment.drop 1)
      [("batch_size", .int 7), ("naming_min_files", .null)]
        = .error (.invalid [⟨[.field "naming_min_files"], .belowLeast 1⟩]) := by
    decide +kernel
  refine ⟨hexplicit, hmisread, hinvalid,
    (ofEnvironment_exact mixedEnvironment hexplicit).notInteger_iff.mp ⟨_, _, hmisread⟩, ?_⟩
  intro s hs text h
  obtain ⟨name, raw, hnot⟩ :=
    (ofEnvironment_exact (mixedEnvironment.drop 1) hexplicit).notInteger_iff.mpr ⟨s, hs, text, h⟩
  rw [hinvalid] at hnot
  cases hnot

end RepoSurvey.Config
