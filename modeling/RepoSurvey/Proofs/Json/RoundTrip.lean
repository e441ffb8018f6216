import RepoSurvey.Proofs.Json.Numbers
import RepoSurvey.Proofs.Json.Strings

/-!
# Reading what is written

* `Json.Faithful`: a value that is not lost in writing;
* `Json.readItems_render`, `Json.readMembers_render`: the inside of a list and of an object is read
  back if its parts are;
* `Json.Faithful.readable`: so is every faithful value, on any level, whatever follows it;
* `Json.readWithin_render`: the text of a value is read as the value;
* `Json.isAscii_render`: in an ASCII style it has nothing beyond ASCII.
-/

namespace RepoSurvey.Json

/-- A value that is not lost in writing: the names in each object are distinct, and the numbers that
are not whole are read back. -/
inductive Faithful : Json → Prop
  | null : Faithful .null
  | bool (b : Bool) : Faithful (.bool b)
  | int (n : Int) : Faithful (.int n)
  | float {x : Binary64} (h : x.ReadsBack) : Faithful (.float x)
  | str (s : String) : Faithful (.str s)
  | arr {items : List Json} (h : ∀ j ∈ items, Faithful j) : Faithful (.arr items)
  | obj {members : List (String × Json)} (hnames : (Table.names members).Nodup)
    (h : ∀ e ∈ members, Faithful e.2) : Faithful (.obj members)

@[simp] theorem faithful_bool (b : Bool) : Faithful (.bool b) := .bool b

@[simp] theorem faithful_int (n : Int) : Faithful (.int n) := .int n

@[simp] theorem faithful_ofNat (n : Nat) : Faithful (.ofNat n) := .int n

@[simp] theorem faithful_str (s : String) : Faithful (.str s) := .str s

@[simp] theorem faithful_float {x : Binary64} : Faithful (.float x) ↔ x.ReadsBack :=
  ⟨fun | .float h => h, .float⟩

@[simp] theorem faithful_arr {items : List Json} :
    Faithful (.arr items) ↔ ∀ j ∈ items, Faithful j :=
  ⟨fun | .arr h => h, .arr⟩

@[simp] theorem faithful_obj_nil : Faithful (.obj []) :=
  .obj List.nodup_nil fun e he => by cases he

@[simp] theorem faithful_obj_cons {name : String} {j : Json} {members : List (String × Json)} :
    Faithful (.obj ((name, j) :: members))
      ↔ name ∉ Table.names members ∧ Faithful j ∧ Faithful (.obj members) := by
  constructor
  · intro h
    cases h with
    | obj hnames h =>
      obtain ⟨hname, hnames⟩ := List.nodup_cons.mp hnames
      obtain ⟨hj, h⟩ := List.forall_mem_cons.mp h
      exact ⟨hname, hj, .obj hnames h⟩
  · rintro ⟨hname, hj, h⟩
    cases h with
    | obj hnames h =>
      exact .obj (List.nodup_cons.mpr ⟨hname, hnames⟩) (List.forall_mem_cons.mpr ⟨hj, h⟩)

@[simp] theorem faithful_strings (texts : List String) : Faithful (.strings texts) := by
  simp [strings]

/-- A value keeps to some limits: its whole numbers have no more digits than are allowed, and its
arrays and objects do not nest more deeply. -/
inductive Fits : Limits → Json → Prop
  | null {limits : Limits} : Fits limits .null
  | bool {limits : Limits} (b : Bool) : Fits limits (.bool b)
  | int {limits : Limits} {n : Int}
      (h : limits.allowsDigits (Nat.toDigits 10 n.natAbs).length = true) : Fits limits (.int n)
  | float {limits : Limits} (x : Binary64) : Fits limits (.float x)
  | str {limits : Limits} (s : String) : Fits limits (.str s)
  | arr {limits inner : Limits} {items : List Json} (henter : limits.enter? = some inner)
      (h : ∀ j ∈ items, Fits inner j) : Fits limits (.arr items)
  | obj {limits inner : Limits} {members : List (String × Json)}
      (henter : limits.enter? = some inner) (h : ∀ e ∈ members, Fits inner e.2) :
      Fits limits (.obj members)

theorem fits_int {limits : Limits} {n : Int} :
    Fits limits (.int n) ↔ limits.allowsDigits (Nat.toDigits 10 n.natAbs).length = true :=
  ⟨fun | .int h => h, .int⟩

theorem fits_arr {limits : Limits} {items : List Json} :
    Fits limits (.arr items) ↔ ∃ inner, limits.enter? = some inner ∧ ∀ j ∈ items, Fits inner j :=
  ⟨fun | .arr henter h => ⟨_, henter, h⟩, fun ⟨_, henter, h⟩ => .arr henter h⟩

theorem fits_obj {limits : Limits} {members : List (String × Json)} :
    Fits limits (.obj members)
      ↔ ∃ inner, limits.enter? = some inner ∧ ∀ e ∈ members, Fits inner e.2 :=
  ⟨fun | .obj henter h => ⟨_, henter, h⟩, fun ⟨_, henter, h⟩ => .obj henter h⟩

/-- Where there are no limits every value keeps to them. -/
theorem Faithful.fits {j : Json} (hj : Faithful j) : Fits {} j := by
  induction hj with
  | null => exact .null
  | bool b => exact .bool b
  | int n => exact .int rfl
  | float _ => exact .float _
  | str s => exact .str s
  | arr _ ih => exact .arr rfl ih
  | obj _ _ ih => exact .obj rfl ih

variable {limits inner : Limits} {style : Style} {fuel level : Nat} {text rest : List Char}

/-! ## White space -/

theorem skipGaps_newline (style : Style) (level : Nat) (text : List Char) :
    skipGaps (newline style level ++ text) = skipGaps text := by
  rw [newline]
  split
  · rfl
  · refine List.dropWhile_append_of_pos fun c hc => ?_
    rcases List.mem_cons.mp hc with rfl | hc
    · rfl
    · rw [List.eq_of_mem_replicate hc]
      rfl

theorem skipGaps_of_isGap {c : Char} (h : isGap c = false) (text : List Char) :
    skipGaps (c :: text) = c :: text := by
  simp [skipGaps, h]

/-- A new line or a closing mark may follow a value. -/
theorem delimited_newline {close : Char} (h : close ∈ delimiters) (style : Style) (level : Nat)
    (rest : List Char) : Delimited (newline style level ++ close :: rest) := by
  rw [newline]
  split
  · exact delimited_cons h rest
  · exact delimited_cons (by decide) _

/-! ## Where a value starts -/

theorem readValue_eq_malformed {c : Char} (h : c ∈ [' ', '\t', '\n', '\r', ']'])
    (text : List Char) : readValue limits fuel (c :: text) = .error .malformed := by
  cases fuel with
  | zero => rfl
  | succ fuel =>
    simp only [List.mem_cons, List.not_mem_nil, or_false] at h
    rcases h with rfl | rfl | rfl | rfl | rfl <;>
      rw [readValue, readScalar_eq_malformed (by decide)] <;> simp

/-- No value starts with white space or with the end of a list. -/
theorem starts_of_readValue {r : Json × List Char} (h : readValue limits fuel text = .ok r) :
    skipGaps text = text ∧ ∀ more, text ≠ ']' :: more := by
  cases text with
  | nil => exact ⟨rfl, fun _ heq => by cases heq⟩
  | cons c more =>
    have hgood : c ∉ [' ', '\t', '\n', '\r', ']'] := fun hc => by
      rw [readValue_eq_malformed hc] at h
      cases h
    simp only [List.mem_cons, List.not_mem_nil, or_false, not_or] at hgood
    obtain ⟨hspace, htab, hline, hreturn, hclose⟩ := hgood
    refine ⟨?_, fun _ heq => hclose (List.cons.inj heq).1⟩
    simp [skipGaps, isGap, hspace, htab, hline, hreturn]

/-! ## Lists -/

theorem readValue_arr {items : List Json} {left : List Char} (henter : limits.enter? = some inner)
    (hclose : ∀ more, text ≠ ']' :: more) (hgaps : skipGaps rest = text)
    (hitems : readItems inner fuel text = .ok (items, left)) :
    readValue limits (fuel + 1) ('[' :: rest) = .ok (.arr items, left) := by
  rw [readValue, henter]
  dsimp only
  rw [hgaps]
  split
  · rename_i more
    exact absurd rfl (hclose more)
  · rw [hitems]

theorem readValue_empty_arr (henter : limits.enter? = some inner) (rest : List Char) :
    readValue limits (fuel + 1) ('[' :: ']' :: rest) = .ok (.arr [], rest) := by
  rw [readValue, henter]
  rfl

theorem readItems_last {item : Json} {left : List Char}
    (hitem : readValue limits fuel text = .ok (item, rest)) (hgaps : skipGaps rest = ']' :: left) :
    readItems limits (fuel + 1) text = .ok ([item], left) := by
  rw [readItems, hitem]
  simp only [hgaps]

theorem readItems_cons {item : Json} {items : List Json} {next left : List Char}
    (hitem : readValue limits fuel text = .ok (item, rest)) (hgaps : skipGaps rest = ',' :: next)
    (hitems : readItems limits fuel (skipGaps next) = .ok (items, left)) :
    readItems limits (fuel + 1) text = .ok (item :: items, left) := by
  rw [readItems, hitem]
  simp only [hgaps, hitems]

/-- A value is read from its text, with fuel for every character and whatever follows. -/
def Readable (limits : Limits) (style : Style) (j : Json) : Prop :=
  ∀ level fuel rest, Delimited rest → (renderAt style level j).length ≤ fuel →
    readValue limits fuel (renderAt style level j ++ rest) = .ok (j, rest)

/-- What stands behind an item sets it off. -/
theorem delimited_renderItems (style : Style) (level : Nat) (items : List Json) (outer : Nat)
    (rest : List Char) :
    Delimited (renderItems style level items ++ (newline style outer ++ ']' :: rest)) := by
  cases items with
  | nil => exact delimited_newline (by decide) style outer rest
  | cons item items => exact delimited_cons (by decide) _

/-- The items of a list are read up to its end. -/
theorem readItems_render {items : List Json} {item : Json} (hitem : Readable limits style item)
    (hitems : ∀ j ∈ items, Readable limits style j)
    (hfuel : (renderAt style level item).length + (renderItems style level items).length < fuel)
    (outer : Nat) :
    readItems limits fuel (renderAt style level item
        ++ (renderItems style level items ++ (newline style outer ++ ']' :: rest)))
      = .ok (item :: items, rest) := by
  induction items generalizing item fuel with
  | nil =>
    obtain ⟨fuel, rfl⟩ := Nat.exists_eq_add_one.mpr (by omega : 0 < fuel)
    have hlast := delimited_renderItems style level [] outer rest
    refine readItems_last (hitem level fuel _ hlast (by omega)) ?_
    rw [renderItems, List.nil_append, skipGaps_newline]
    rfl
  | cons next items ih =>
    obtain ⟨fuel, rfl⟩ := Nat.exists_eq_add_one.mpr (by omega : 0 < fuel)
    obtain ⟨hnext, hitems⟩ := List.forall_mem_cons.mp hitems
    simp only [renderItems, List.length_cons, List.length_append] at hfuel
    have hstart := starts_of_readValue
      (hnext level fuel _ (delimited_renderItems style level items outer rest) (by omega))
    simp only [renderItems, List.cons_append, List.append_assoc]
    refine readItems_cons (hitem level fuel _ (delimited_cons (by decide) _) (by omega)) rfl ?_
    rw [skipGaps_newline, hstart.1]
    exact ih hnext hitems (by omega)

theorem readable_arr {items : List Json} (henter : limits.enter? = some inner)
    (h : ∀ j ∈ items, Readable inner style j) : Readable limits style (.arr items) := by
  intro level fuel rest hrest hfuel
  cases items with
  | nil =>
    obtain ⟨fuel, rfl⟩ := Nat.exists_eq_add_one.mpr
      (by simp [renderAt] at hfuel; omega : 0 < fuel)
    exact readValue_empty_arr henter rest
  | cons item items =>
    obtain ⟨hitem, hitems⟩ := List.forall_mem_cons.mp h
    simp only [renderAt, List.length_cons, List.length_append] at hfuel
    obtain ⟨fuel, rfl⟩ := Nat.exists_eq_add_one.mpr (by omega : 0 < fuel)
    have hstart := starts_of_readValue (hitem (level + 1) fuel _
      (delimited_renderItems style (level + 1) items level rest) (by omega))
    simp only [renderAt, List.cons_append, List.append_assoc, List.nil_append]
    refine readValue_arr henter hstart.2 ((skipGaps_newline style _ _).trans hstart.1) ?_
    exact readItems_render hitem hitems (by omega) level

/-! ## Objects -/

theorem readValue_obj {members : List (String × Json)} {left : List Char}
    (henter : limits.enter? = some inner) (hclose : ∀ more, text ≠ '\x7d' :: more)
    (hgaps : skipGaps rest = text)
    (hmembers : readMembers inner fuel text = .ok (members, left)) :
    readValue limits (fuel + 1) ('\x7b' :: rest) = .ok (.obj (Table.ofEntries members), left) := by
  rw [readValue, henter]
  dsimp only
  rw [hgaps]
  split
  · rename_i more
    exact absurd rfl (hclose more)
  · rw [hmembers]

theorem readValue_empty_obj (henter : limits.enter? = some inner) (rest : List Char) :
    readValue limits (fuel + 1) ('\x7b' :: '\x7d' :: rest) = .ok (.obj [], rest) := by
  rw [readValue, henter]
  rfl

theorem starts_renderString (ascii : Bool) (name : String) (rest : List Char) :
    skipGaps (renderString ascii name ++ rest) = renderString ascii name ++ rest
      ∧ ∀ more, renderString ascii name ++ rest ≠ '\x7d' :: more :=
  ⟨skipGaps_of_isGap rfl _, fun _ heq => absurd (List.cons.inj heq).1 (by decide)⟩

theorem readMembers_last {name : String} {value : Json} {behind more left : List Char}
    (hname : readString text = .ok (name, behind)) (hcolon : skipGaps behind = ':' :: more)
    (hvalue : readValue limits fuel (skipGaps more) = .ok (value, rest))
    (hgaps : skipGaps rest = '\x7d' :: left) :
    readMembers limits (fuel + 1) ('"' :: text) = .ok ([(name, value)], left) := by
  rw [readMembers, hname]
  simp only [hcolon, hvalue, hgaps]

theorem readMembers_cons {name : String} {value : Json} {members : List (String × Json)}
    {behind more next left : List Char} (hname : readString text = .ok (name, behind))
    (hcolon : skipGaps behind = ':' :: more)
    (hvalue : readValue limits fuel (skipGaps more) = .ok (value, rest))
    (hgaps : skipGaps rest = ',' :: next)
    (hmembers : readMembers limits fuel (skipGaps next) = .ok (members, left)) :
    readMembers limits (fuel + 1) ('"' :: text) = .ok ((name, value) :: members, left) := by
  rw [readMembers, hname]
  simp only [hcolon, hvalue, hgaps, hmembers]

/-- A name and its value, up to what follows them. -/
theorem exists_member (name : String) (level fuel : Nat) {value : Json}
    (hvalue : Readable limits style value) (hrest : Delimited rest)
    (hfuel : (renderAt style level value).length ≤ fuel) :
    ∃ text behind more, renderString style.ascii name
        ++ (colon style ++ (renderAt style level value ++ rest)) = '"' :: text
      ∧ readString text = .ok (name, behind) ∧ skipGaps behind = ':' :: more
      ∧ readValue limits fuel (skipGaps more) = .ok (value, rest) := by
  have hread := hvalue level fuel rest hrest hfuel
  have hstart := (starts_of_readValue hread).1
  obtain ⟨text, htext, hname⟩ := readString_renderString style.ascii name
    (colon style ++ (renderAt style level value ++ rest))
  refine ⟨_, _, (colon style).tail ++ (renderAt style level value ++ rest),
    by rw [htext, List.cons_append], hname, ?_, ?_⟩
  · rw [colon]
    split <;> rfl
  · have hgaps : skipGaps ((colon style).tail ++ (renderAt style level value ++ rest))
        = skipGaps (renderAt style level value ++ rest) := by
      rw [colon]
      split <;> rfl
    rw [hgaps, hstart]
    exact hread

theorem delimited_renderMembers (style : Style) (level : Nat) (members : List (String × Json))
    (outer : Nat) (rest : List Char) :
    Delimited (renderMembers style level members ++ (newline style outer ++ '\x7d' :: rest)) := by
  cases members with
  | nil => exact delimited_newline (by decide) style outer rest
  | cons member members => exact delimited_cons (by decide) _

/-- The members of an object are read up to its end. -/
theorem readMembers_render {members : List (String × Json)} {name : String} {value : Json}
    (hvalue : Readable limits style value) (hmembers : ∀ e ∈ members, Readable limits style e.2)
    (hfuel : (renderAt style level value).length + (renderMembers style level members).length
      < fuel) (outer : Nat) :
    readMembers limits fuel (renderString style.ascii name ++ (colon style
        ++ (renderAt style level value
          ++ (renderMembers style level members ++ (newline style outer ++ '\x7d' :: rest)))))
      = .ok ((name, value) :: members, rest) := by
  induction members generalizing name value fuel with
  | nil =>
    obtain ⟨fuel, rfl⟩ := Nat.exists_eq_add_one.mpr (by omega : 0 < fuel)
    obtain ⟨text, behind, more, htext, hname, hcolon, hread⟩ := exists_member name level fuel hvalue
      (delimited_renderMembers style level [] outer rest) (by omega)
    rw [htext]
    refine readMembers_last hname hcolon hread ?_
    rw [renderMembers, List.nil_append, skipGaps_newline]
    rfl
  | cons next members ih =>
    obtain ⟨fuel, rfl⟩ := Nat.exists_eq_add_one.mpr (by omega : 0 < fuel)
    obtain ⟨name', value'⟩ := next
    obtain ⟨hnext, hmembers⟩ := List.forall_mem_cons.mp hmembers
    simp only [renderMembers, List.length_cons, List.length_append] at hfuel
    simp only [renderMembers, List.cons_append, List.append_assoc]
    obtain ⟨text, behind, more, htext, hname, hcolon, hread⟩ := exists_member name level fuel hvalue
      (delimited_cons (c := ',') (by decide) _) (by omega)
    rw [htext]
    refine readMembers_cons hname hcolon hread rfl ?_
    rw [skipGaps_newline, (starts_renderString style.ascii name' _).1]
    exact ih hnext hmembers (by omega)

theorem readable_obj {members : List (String × Json)} (hnames : (Table.names members).Nodup)
    (henter : limits.enter? = some inner) (h : ∀ e ∈ members, Readable inner style e.2) :
    Readable limits style (.obj members) := by
  intro level fuel rest hrest hfuel
  cases members with
  | nil =>
    obtain ⟨fuel, rfl⟩ := Nat.exists_eq_add_one.mpr
      (by simp [renderAt] at hfuel; omega : 0 < fuel)
    exact readValue_empty_obj henter rest
  | cons member members =>
    obtain ⟨name, value⟩ := member
    obtain ⟨(hvalue : Readable inner style value), hmembers⟩ := List.forall_mem_cons.mp h
    simp only [renderAt, List.length_cons, List.length_append] at hfuel
    obtain ⟨fuel, rfl⟩ := Nat.exists_eq_add_one.mpr (by omega : 0 < fuel)
    have hstart := starts_renderString style.ascii name
    have htable := Table.ofEntries_eq_self hnames
    simp only [renderAt, List.cons_append, List.append_assoc, List.nil_append]
    refine (readValue_obj henter (hstart _).2 ((skipGaps_newline style _ _).trans (hstart _).1)
      (readMembers_render hvalue hmembers (by omega) level)).trans ?_
    rw [htable]

/-! ## Values -/

theorem readValue_of_readScalar {r : Json × List Char} (h : readScalar limits text = .ok r) :
    readValue limits (fuel + 1) text = .ok r := by
  cases text with
  | nil => cases h
  | cons c more =>
    have hgood : c ∉ ['"', '[', '\x7b'] := fun hc => by
      have hbad : c ∈ [' ', '\t', '\n', '\r', '"', '[', ']', '\x7b'] := by
        revert hc
        simp +contextual [or_imp]
      rw [readScalar_eq_malformed hbad] at h
      cases h
    simp only [List.mem_cons, List.not_mem_nil, or_false, not_or] at hgood
    obtain ⟨hquote, hlist, hobject⟩ := hgood
    rw [readValue, h]
    · exact fun _ heq => hquote (List.cons.inj heq).1
    · exact fun _ heq => hlist (List.cons.inj heq).1
    · exact fun _ heq => hobject (List.cons.inj heq).1

theorem readable_of_readScalar {j : Json}
    (h : ∀ level, readScalar limits (renderAt style level j) = .ok (j, [])) :
    Readable limits style j := by
  intro level fuel rest hrest hfuel
  cases fuel with
  | zero =>
    have hread := h level
    rw [List.length_eq_zero_iff.mp (Nat.le_zero.mp hfuel)] at hread
    cases hread
  | succ fuel => exact readValue_of_readScalar (readScalar_append hrest (h level))

/-- Every faithful value is read back, on any level and whatever follows it. -/
theorem Faithful.readable {j : Json} (hj : Faithful j) (hfits : Fits limits j) :
    Readable limits style j := by
  induction hj generalizing limits with
  | null => exact readable_of_readScalar fun _ => rfl
  | bool b => cases b <;> exact readable_of_readScalar fun _ => rfl
  | int n => exact readable_of_readScalar fun _ => readScalar_intText (fits_int.mp hfits)
  | float h => exact readable_of_readScalar fun _ => readScalar_floatText h
  | str s =>
    intro level fuel rest _ hfuel
    obtain ⟨body, hbody, hread⟩ := readString_renderString style.ascii s rest
    rw [renderAt, hbody] at hfuel ⊢
    obtain ⟨fuel, rfl⟩ := Nat.exists_eq_add_one.mpr (by simp at hfuel; omega : 0 < fuel)
    rw [List.cons_append, readValue, hread]
  | arr _ ih =>
    obtain ⟨inner, henter, hitems⟩ := fits_arr.mp hfits
    exact readable_arr henter fun j hj => ih j hj (hitems j hj)
  | obj hnames _ ih =>
    obtain ⟨inner, henter, hmembers⟩ := fits_obj.mp hfits
    exact readable_obj hnames henter fun e he => ih e he (hmembers e he)

/-- The text of a value is read as the value, with white space behind it or without. -/
theorem readWithin_render {j : Json} (hj : Faithful j) (hfits : Fits limits j)
    (hrest : Delimited rest) (hgaps : skipGaps rest = []) :
    readWithin limits (render style j ++ rest) = .ok j := by
  have hread : readValue limits ((render style j ++ rest).length + 1) (render style j ++ rest)
      = .ok (j, rest) :=
    hj.readable hfits 0 _ rest hrest (by simp [render]; omega)
  rw [readWithin, (starts_of_readValue hread).1, hread]
  simp [hgaps]

/-! ## Text in ASCII -/

section

open Text (IsAscii isAscii_append isAscii_cons isAscii_nil)

variable (indent : Option Nat)

theorem isAscii_newline (level : Nat) : IsAscii (newline ⟨true, indent⟩ level) := by
  cases indent with
  | none => exact isAscii_nil
  | some width => exact isAscii_cons.mpr ⟨by decide, Text.isAscii_replicate _ (by decide)⟩

theorem isAscii_colon : IsAscii (colon ⟨true, indent⟩) := by
  cases indent <;> simp [colon]

mutual

theorem isAscii_renderAt (level : Nat) : (j : Json) → IsAscii (renderAt ⟨true, indent⟩ level j)
  | .null => by simp [renderAt]
  | .bool b => by cases b <;> simp [renderAt]
  | .int n => isAscii_intText n
  | .float x => isAscii_floatText x
  | .str s => isAscii_renderString s
  | .arr [] => by simp [renderAt]
  | .arr (item :: items) => by
    simp [renderAt, isAscii_newline, isAscii_renderAt (level + 1) item,
      isAscii_renderItems (level + 1) items]
  | .obj [] => by simp [renderAt]
  | .obj ((name, value) :: members) => by
    simp [renderAt, isAscii_newline, isAscii_renderString, isAscii_colon,
      isAscii_renderAt (level + 1) value, isAscii_renderMembers (level + 1) members]

theorem isAscii_renderItems (level : Nat) :
    (items : List Json) → IsAscii (renderItems ⟨true, indent⟩ level items)
  | [] => isAscii_nil
  | item :: items => by
    simp [renderItems, isAscii_newline, isAscii_renderAt level item,
      isAscii_renderItems level items]

theorem isAscii_renderMembers (level : Nat) :
    (members : List (String × Json)) → IsAscii (renderMembers ⟨true, indent⟩ level members)
  | [] => isAscii_nil
  | (name, value) :: members => by
    simp [renderMembers, isAscii_newline, isAscii_renderString, isAscii_colon,
      isAscii_renderAt level value, isAscii_renderMembers level members]

end

/-- In an ASCII style the text of a value has nothing beyond ASCII. -/
theorem isAscii_render (j : Json) : IsAscii (render ⟨true, indent⟩ j) := isAscii_renderAt indent 0 j

end

end RepoSurvey.Json
