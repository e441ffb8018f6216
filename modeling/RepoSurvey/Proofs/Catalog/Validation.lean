import Mathlib.Order.Bounds.Basic
import RepoSurvey.Catalog.Rules
import RepoSurvey.Proofs.Report.WrittenForm
import RepoSurvey.Proofs.Table

/-!
# Lists of rules that are accepted

Rules are checked in turn, each against the ids before it and then by itself. The first rule at
fault is reported, with the first check that it fails.

* `Rule.WellFormed`, `Catalog.Accepted`: what a rule is to be by itself, and a list of rules;
* `Catalog.Fault`: a check that a rule fails behind others; `Catalog.FirstFault`: the first of them;
* `Catalog.fault?_eq_some_iff`: that one is found;
* `Catalog.accepted_concat_iff`: a list goes on to be accepted with a rule that fails no check;
* `Catalog.validate_exact`: what is reported of a list of rules, and how rules are looked up;
* `Catalog.accepted_rules`: the catalog is accepted.
-/

namespace RepoSurvey

/-- The value of a number, if it is finite. -/
def Numeral.value? : Numeral → Option Rat
  | .whole n => some n
  | .real x => x.value?

theorem Numeral.inUnitInterval_iff {x : Numeral} :
    x.inUnitInterval = true ↔ ∃ q, x.value? = some q ∧ 0 ≤ q ∧ q ≤ 1 := by
  cases x with
  | whole n =>
    have hone : (n : Rat) ≤ 1 ↔ n ≤ 1 := by exact_mod_cast Iff.rfl
    simp [inUnitInterval, value?, hone]
  | real x => exact Binary64.inUnitInterval_iff

/-- A rule of a known domain, with a confidence between zero and one, and with a file shape and a
pattern at least. -/
structure Rule.WellFormed (r : Rule) : Prop where
  domain : r.domain ∈ Catalog.domains
  confidence : ∃ q, r.confidence.value? = some q ∧ 0 ≤ q ∧ q ≤ 1
  files : r.files ≠ []
  code : r.code ≠ []

/-- A place in the order in which a rule is checked. -/
def CatalogError.rank : CatalogError → Nat
  | .duplicateId _ => 0
  | .unknownDomain _ _ => 1
  | .confidenceOutOfRange _ _ => 2
  | .withoutPatterns _ => 3

namespace Catalog

/-- Well-formed rules with distinct ids. -/
structure Accepted (rules : List Rule) : Prop where
  ids : (rules.map (·.id)).Nodup
  wellFormed : ∀ r ∈ rules, r.WellFormed

/-- A check that a rule fails where it stands behind others. -/
inductive Fault (before : List Rule) (r : Rule) : CatalogError → Prop
  | duplicateId (h : r.id ∈ before.map (·.id)) : Fault before r (.duplicateId r.id)
  | unknownDomain (h : r.domain ∉ domains) : Fault before r (.unknownDomain r.id r.domain)
  | confidenceOutOfRange (h : ¬ ∃ q, r.confidence.value? = some q ∧ 0 ≤ q ∧ q ≤ 1) :
      Fault before r (.confidenceOutOfRange r.id r.confidence)
  | withoutPatterns (h : r.files = [] ∨ r.code = []) : Fault before r (.withoutPatterns r.id)

/-- Of the checks that a rule fails, the first. -/
structure FirstFault (before : List Rule) (r : Rule) (e : CatalogError) : Prop where
  fault : Fault before r e
  rank_le : ∀ e', Fault before r e' → e.rank ≤ e'.rank

variable {before rules : List Rule} {r : Rule} {e e' : CatalogError}

/-! ## One rule -/

theorem Fault.eq_of_rank_eq (h : Fault before r e) (h' : Fault before r e')
    (hrank : e.rank = e'.rank) : e = e' := by
  cases h <;> cases h' <;> first | rfl | cases hrank

theorem FirstFault.unique (h : FirstFault before r e) (h' : FirstFault before r e') : e = e' :=
  h.fault.eq_of_rank_eq h'.fault
    (Nat.le_antisymm (h.rank_le e' h'.fault) (h'.rank_le e h.fault))

theorem Fault.one_le_rank (h : Fault before r e) (hid : r.id ∉ before.map (·.id)) :
    1 ≤ e.rank := by
  cases h with
  | duplicateId h => exact absurd h hid
  | _ => simp [CatalogError.rank]

theorem Fault.two_le_rank (h : Fault before r e) (hid : r.id ∉ before.map (·.id))
    (hdomain : r.domain ∈ domains) : 2 ≤ e.rank := by
  cases h with
  | duplicateId h => exact absurd h hid
  | unknownDomain h => exact absurd hdomain h
  | _ => simp [CatalogError.rank]

theorem Fault.three_le_rank (h : Fault before r e) (hid : r.id ∉ before.map (·.id))
    (hdomain : r.domain ∈ domains)
    (hconfidence : ∃ q, r.confidence.value? = some q ∧ 0 ≤ q ∧ q ≤ 1) : 3 ≤ e.rank := by
  cases h with
  | duplicateId h => exact absurd h hid
  | unknownDomain h => exact absurd hdomain h
  | confidenceOutOfRange h => exact absurd hconfidence h
  | withoutPatterns => exact le_rfl

theorem forall_not_fault_iff :
    (∀ e, ¬ Fault before r e) ↔ r.id ∉ before.map (·.id) ∧ r.WellFormed := by
  constructor
  · intro h
    refine ⟨fun hid => h _ (.duplicateId hid), ?_, ?_, fun hfiles => ?_, fun hcode => ?_⟩
    · exact Classical.byContradiction fun hdomain => h _ (.unknownDomain hdomain)
    · exact Classical.byContradiction fun hconfidence => h _ (.confidenceOutOfRange hconfidence)
    · exact h _ (.withoutPatterns (.inl hfiles))
    · exact h _ (.withoutPatterns (.inr hcode))
  · rintro ⟨hid, hr⟩ e he
    cases he with
    | duplicateId h => exact hid h
    | unknownDomain h => exact h hr.domain
    | confidenceOutOfRange h => exact h hr.confidence
    | withoutPatterns h => exact h.elim hr.files hr.code

/-- The ids before a rule, the last first, as they are kept while rules are checked. -/
def idsBefore (before : List Rule) : List String := (before.map (·.id)).reverse

theorem idsBefore_concat (before : List Rule) (r : Rule) :
    idsBefore (before ++ [r]) = r.id :: idsBefore before := by
  simp [idsBefore]

/-- Either no check fails and no fault is found, or the first check that fails is found. -/
theorem fault?_cases (before : List Rule) (r : Rule) :
    (fault? (idsBefore before) r = none ∧ ∀ e, ¬ Fault before r e)
      ∨ ∃ e, fault? (idsBefore before) r = some e ∧ FirstFault before r e := by
  have hseen : (idsBefore before).contains r.id = true ↔ r.id ∈ before.map (·.id) := by
    simp [idsBefore]
  unfold fault?
  split
  · rename_i hid
    exact .inr ⟨_, rfl, .duplicateId (hseen.mp hid), fun _ _ => Nat.zero_le _⟩
  rename_i hid
  have hid : r.id ∉ before.map (·.id) := fun hmem => hid (hseen.mpr hmem)
  split
  · rename_i hdomain
    have hdomain : r.domain ∉ domains := by simpa using hdomain
    exact .inr ⟨_, rfl, .unknownDomain hdomain, fun _ h => h.one_le_rank hid⟩
  rename_i hdomain
  have hdomain : r.domain ∈ domains := by simpa using hdomain
  split
  · rename_i hconfidence
    have hconfidence : ¬ ∃ q, r.confidence.value? = some q ∧ 0 ≤ q ∧ q ≤ 1 := by
      rw [← Numeral.inUnitInterval_iff]
      simpa using hconfidence
    exact .inr ⟨_, rfl, .confidenceOutOfRange hconfidence, fun _ h => h.two_le_rank hid hdomain⟩
  rename_i hconfidence
  have hconfidence : ∃ q, r.confidence.value? = some q ∧ 0 ≤ q ∧ q ≤ 1 :=
    Numeral.inUnitInterval_iff.mp (by simpa using hconfidence)
  split
  · rename_i hpatterns
    have hpatterns : r.files = [] ∨ r.code = [] := by simpa using hpatterns
    exact .inr ⟨_, rfl, .withoutPatterns hpatterns,
      fun _ h => h.three_le_rank hid hdomain hconfidence⟩
  · rename_i hpatterns
    have hpatterns : r.files ≠ [] ∧ r.code ≠ [] := by simpa using hpatterns
    have hr : r.WellFormed := ⟨hdomain, hconfidence, hpatterns.1, hpatterns.2⟩
    exact .inl ⟨rfl, forall_not_fault_iff.mpr ⟨hid, hr⟩⟩

theorem fault?_eq_none_iff : fault? (idsBefore before) r = none ↔ ∀ e, ¬ Fault before r e := by
  rcases fault?_cases before r with ⟨hnone, hno⟩ | ⟨e, hsome, he⟩
  · exact ⟨fun _ => hno, fun _ => hnone⟩
  · rw [hsome]
    exact ⟨fun h => (Option.some_ne_none _ h).elim, fun h => absurd he.fault (h e)⟩

/-- The fault that is found of a rule is the first check that it fails. -/
theorem fault?_eq_some_iff : fault? (idsBefore before) r = some e ↔ FirstFault before r e := by
  rcases fault?_cases before r with ⟨hnone, hno⟩ | ⟨d, hsome, hd⟩
  · rw [hnone]
    exact ⟨fun h => (Option.some_ne_none _ h.symm).elim, fun h => absurd h.fault (hno e)⟩
  · rw [hsome, Option.some_inj]
    constructor
    · rintro rfl
      exact hd
    · exact hd.unique

/-! ## A list of rules -/

theorem accepted_nil : Accepted [] := ⟨List.nodup_nil, by simp⟩

theorem Accepted.sublist {rs : List Rule} (h : Accepted rules) (hrs : rs.Sublist rules) :
    Accepted rs :=
  ⟨h.ids.sublist (hrs.map _), fun r hr => h.wellFormed r (hrs.subset hr)⟩

/-- A rule that fails no check may stand behind rules that are accepted. -/
theorem accepted_concat_iff :
    Accepted (before ++ [r]) ↔ Accepted before ∧ ∀ e, ¬ Fault before r e := by
  rw [forall_not_fault_iff]
  constructor
  · intro h
    refine ⟨h.sublist (List.sublist_append_left _ _), fun hid => ?_, h.wellFormed r (by simp)⟩
    have hids := h.ids
    rw [List.map_append, List.nodup_append] at hids
    exact hids.2.2 _ hid _ (by simp) rfl
  · rintro ⟨h, hid, hr⟩
    constructor
    · rw [List.map_append, List.nodup_append]
      refine ⟨h.ids, by simp, fun a ha b hb hab => hid ?_⟩
      rwa [hab, List.mem_singleton.mp hb] at ha
    · intro q hq
      rcases List.mem_append.mp hq with hq | hq
      · exact h.wellFormed q hq
      · rw [List.mem_singleton.mp hq]
        exact hr

theorem faultFrom?_eq_none_iff (hbefore : Accepted before) :
    faultFrom? (idsBefore before) rules = none ↔ Accepted (before ++ rules) := by
  induction rules generalizing before with
  | nil => simp [faultFrom?, hbefore]
  | cons r rest ih =>
    have hsplit : before ++ r :: rest = before ++ [r] ++ rest := by simp
    rw [faultFrom?, hsplit]
    cases hfault : fault? (idsBefore before) r with
    | none =>
      have hnext : Accepted (before ++ [r]) :=
        accepted_concat_iff.mpr ⟨hbefore, fault?_eq_none_iff.mp hfault⟩
      rw [← ih hnext, idsBefore_concat]
    | some e =>
      have hnot : ¬ Accepted (before ++ [r] ++ rest) := fun h =>
        (accepted_concat_iff.mp (h.sublist (List.sublist_append_left _ _))).2 e
          (fault?_eq_some_iff.mp hfault).fault
      exact ⟨fun h => (Option.some_ne_none e h).elim, fun h => absurd h hnot⟩

/-- The fault that is found is the first of the first rule that cannot stand behind those before
it. -/
theorem faultFrom?_eq_some_iff (hbefore : Accepted before) :
    faultFrom? (idsBefore before) rules = some e ↔ ∃ passed r rest, rules = passed ++ r :: rest
      ∧ Accepted (before ++ passed) ∧ FirstFault (before ++ passed) r e := by
  induction rules generalizing before with
  | nil => simp [faultFrom?]
  | cons r rest ih =>
    rw [faultFrom?]
    cases hfault : fault? (idsBefore before) r with
    | none =>
      have hno := fault?_eq_none_iff.mp hfault
      dsimp only
      rw [← idsBefore_concat, ih (accepted_concat_iff.mpr ⟨hbefore, hno⟩)]
      constructor
      · rintro ⟨passed, q, more, rfl, hpassed, hfirst⟩
        rw [List.append_assoc] at hpassed hfirst
        exact ⟨r :: passed, q, more, rfl, hpassed, hfirst⟩
      · rintro ⟨passed, q, more, heq, hpassed, hfirst⟩
        cases passed with
        | nil =>
          obtain ⟨rfl, rfl⟩ := List.cons.inj heq
          rw [List.append_nil] at hfirst
          exact absurd hfirst.fault (hno e)
        | cons p passed =>
          obtain ⟨rfl, rfl⟩ := List.cons.inj heq
          rw [List.append_cons] at hpassed hfirst
          exact ⟨passed, q, more, rfl, hpassed, hfirst⟩
    | some d =>
      have hd := fault?_eq_some_iff.mp hfault
      dsimp only
      constructor
      · intro h
        obtain rfl := Option.some.inj h
        exact ⟨[], r, rest, rfl, by simpa using hbefore, by simpa using hd⟩
      · rintro ⟨passed, q, more, heq, hpassed, hfirst⟩
        cases passed with
        | nil =>
          obtain ⟨rfl, rfl⟩ := List.cons.inj heq
          rw [List.append_nil] at hfirst
          rw [hd.unique hfirst]
        | cons p passed =>
          obtain ⟨rfl, rfl⟩ := List.cons.inj heq
          rw [List.append_cons] at hpassed
          have hprefix := hpassed.sublist (List.sublist_append_left (before ++ [r]) passed)
          exact absurd hd.fault ((accepted_concat_iff.mp hprefix).2 d)

theorem validate_eq_ok_iff : validate rules = .ok () ↔ Accepted rules := by
  have hnone : faultFrom? [] rules = none ↔ Accepted rules := faultFrom?_eq_none_iff accepted_nil
  rw [← hnone, validate]
  cases faultFrom? [] rules <;> simp

theorem validate_eq_error_iff : validate rules = .error e ↔ ∃ passed r rest,
    rules = passed ++ r :: rest ∧ Accepted passed ∧ FirstFault passed r e := by
  have hsome : faultFrom? [] rules = some e ↔ ∃ passed r rest, rules = passed ++ r :: rest
      ∧ Accepted passed ∧ FirstFault passed r e := faultFrom?_eq_some_iff accepted_nil
  rw [← hsome, validate]
  cases faultFrom? [] rules <;> simp

/-- The first rule that cannot stand behind those before it is where the rules up to it stop being
accepted. -/
theorem isLeast_of_fault {passed rest : List Rule} (hpassed : Accepted passed)
    (he : Fault passed r e) :
    IsLeast {i | ¬ Accepted ((passed ++ r :: rest).take (i + 1))} passed.length := by
  constructor
  · have htake : (passed ++ r :: rest).take (passed.length + 1) = passed ++ [r] := by
      simp [List.take_append, List.take_of_length_le]
    intro h
    rw [htake] at h
    exact (accepted_concat_iff.mp h).2 e he
  · intro i hi
    rw [← Nat.not_lt]
    intro hlt
    refine hi (hpassed.sublist ?_)
    rw [List.take_append_of_le_length hlt]
    exact List.take_sublist _ _

/-! ## Looking rules up -/

section Lookup

variable {id : String}

theorem byId_eq (h : Accepted rules) : byId rules = rules.map fun r => (r.id, r) :=
  Table.ofEntries_eq_self (by simpa [Table.names, Function.comp_def] using h.ids)

theorem find?_of_mem (h : Accepted rules) (hr : r ∈ rules) : find? rules r.id = some r := by
  rw [find?, byId_eq h]
  apply Table.get?_eq_some_of_mem
  · simpa [Table.names, Function.comp_def] using h.ids
  · exact List.mem_map.mpr ⟨r, hr, rfl⟩

/-- Under an id of no rule there is nothing. -/
theorem find?_eq_none_iff : find? rules id = none ↔ ∀ r ∈ rules, r.id ≠ id := by
  rw [find?, byId, Table.get?_eq_none_iff, Table.names_ofEntries, List.mem_eraseDups]
  simp [Table.names]

end Lookup

/-- A list of rules is accepted exactly if its ids are distinct and its rules well-formed. Else the
fault reported is about the rule at the least index up to which the rules are not accepted any more,
and is the first of the checks that this rule fails. In an accepted list each rule is found by its
id, and nothing by any other. -/
theorem validate_exact (rules : List Rule) :
    (validate rules = .ok () ↔ Accepted rules)
      ∧ (∀ e, validate rules = .error e ↔ ∃ i r, rules[i]? = some r
        ∧ IsLeast {j | ¬ Accepted (rules.take (j + 1))} i ∧ FirstFault (rules.take i) r e)
      ∧ (Accepted rules → (∀ r ∈ rules, find? rules r.id = some r)
        ∧ ∀ id, (∀ r ∈ rules, r.id ≠ id) → find? rules id = none) := by
  refine ⟨validate_eq_ok_iff, fun e => ?_, fun h => ⟨fun r hr => find?_of_mem h hr, ?_⟩⟩
  · rw [validate_eq_error_iff]
    constructor
    · rintro ⟨passed, r, rest, rfl, hpassed, hfirst⟩
      refine ⟨passed.length, r, by simp, isLeast_of_fault hpassed hfirst.fault, ?_⟩
      rwa [List.take_left]
    · rintro ⟨i, r, hr, hleast, hfirst⟩
      obtain ⟨hlt, rfl⟩ := List.getElem?_eq_some_iff.mp hr
      have hsplit : rules = rules.take i ++ rules[i] :: rules.drop (i + 1) := by simp
      refine ⟨rules.take i, rules[i], rules.drop (i + 1), hsplit, ?_, hfirst⟩
      cases i with
      | zero => exact accepted_nil
      | succ i =>
        exact Classical.byContradiction fun hnot =>
          absurd (hleast.2 hnot) (Nat.not_succ_le_self i)
  · exact fun id hid => find?_eq_none_iff.mpr hid

/-- The catalog is accepted. -/
theorem accepted_rules : Accepted Catalog.rules := by
  -- the domains are compared as they are listed, since it takes long to sort them
  have hdomains : ∀ r ∈ Catalog.rules, r.domain ∈ domains := by
    simp only [domains, NameSet.mem_ofList]
    decide +kernel
  have hrest : (Catalog.rules.all fun r =>
      r.confidence.inUnitInterval && !r.files.isEmpty && !r.code.isEmpty) = true := by
    decide +kernel
  refine ⟨by decide +kernel, fun r hr => ?_⟩
  have hr' := List.all_eq_true.mp hrest r hr
  simp only [Bool.and_eq_true, Bool.not_eq_true', List.isEmpty_eq_false_iff] at hr'
  exact ⟨hdomains r hr, Numeral.inUnitInterval_iff.mp hr'.1.1, hr'.1.2, hr'.2⟩

end Catalog

end RepoSurvey
