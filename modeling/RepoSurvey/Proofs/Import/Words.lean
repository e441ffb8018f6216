import Mathlib.Data.List.Infix
import RepoSurvey.Proofs.Import.Shape

/-!
# The words that imports start with

A match of an import pattern starts with one of three words. Where they occur in a text is told by
its parts, if between the parts stand characters that are in none of the words.

* `Import.Wordless`: a text in which none of the words occurs;
* `Import.isBoundary`: a character of none of the words;
* `Import.Wordless.append_cons`: two such texts with a boundary between them;
* `Import.eq_of_occurrence`: the only occurrence in a text with one word between two boundaries;
* `Import.Kind`: the patterns, each with the word that its matches start with;
* `Import.Kind.pattern_eq`: the word, what stands between it and the path, the path, and the end.
-/

namespace RepoSurvey.Import

open Pattern

/-! ## Occurrences -/

/-- The words that a match of an import pattern can start with. -/
def words : List String := ["import", "require", "export"]

/-- None of the words occurs in the text. -/
def Wordless (text : List Char) : Prop := ∀ word ∈ words, ¬ word.toList <:+: text

instance (text : List Char) : Decidable (Wordless text) :=
  inferInstanceAs (Decidable (∀ word ∈ words, ¬ word.toList <:+: text))

/-- A character of none of the words. -/
def isBoundary (c : Char) : Bool := words.all fun word => !word.toList.contains c

theorem not_mem_of_isBoundary {word : String} {c : Char} (hword : word ∈ words)
    (hc : isBoundary c = true) : c ∉ word.toList := by
  simpa using List.all_eq_true.mp hc word hword

/-- What occurs in a text without some character that is in the text occurs before it or behind it.
-/
theorem before_or_behind {word start rest front back : List Char} {c : Char} (hc : c ∉ word)
    (h : start ++ word ++ rest = front ++ c :: back) :
    (∃ more, front = start ++ word ++ more)
      ∨ ∃ more, start = front ++ c :: more ∧ more ++ word ++ rest = back := by
  rcases List.append_eq_append_iff.mp h with ⟨more, hfront, _⟩ | ⟨more, hwhole, hback⟩
  · exact Or.inl ⟨more, hfront⟩
  · cases more with
    | nil => exact Or.inl ⟨[], by simpa using hwhole.symm⟩
    | cons d more =>
      obtain ⟨rfl, rfl⟩ := List.cons.inj hback
      rcases List.append_eq_append_iff.mp hwhole with ⟨last, _, hword⟩ | ⟨last, hstart, hlast⟩
      · exact absurd (by rw [hword]; simp) hc
      · cases last with
        | nil =>
          have hword : word = c :: more := hlast.symm
          exact absurd (by rw [hword]; simp) hc
        | cons d last =>
          obtain ⟨rfl, rfl⟩ := List.cons.inj hlast
          exact Or.inr ⟨last, hstart, by simp⟩

theorem wordless_nil : Wordless [] := by decide

/-- No word occurs in two texts with a boundary between them, if none does in either. -/
theorem Wordless.append_cons {front back : List Char} {c : Char} (hfront : Wordless front)
    (hc : isBoundary c = true) (hback : Wordless back) : Wordless (front ++ c :: back) := by
  rintro word hword ⟨start, rest, h⟩
  rcases before_or_behind (not_mem_of_isBoundary hword hc) h with
    ⟨more, rfl⟩ | ⟨more, rfl, rfl⟩
  · exact hfront word hword (List.infix_append start word.toList more)
  · exact hback word hword (List.infix_append more word.toList rest)

theorem Wordless.cons {back : List Char} {c : Char} (hc : isBoundary c = true)
    (hback : Wordless back) : Wordless (c :: back) :=
  wordless_nil.append_cons hc hback

/-- In a text with a word between two boundaries, and no other one, the word occurs there only. The
boundary before it may be the start of the text. -/
theorem eq_of_occurrence {word keyword : String} {front start back rest : List Char} {c : Char}
    (hword : word ∈ words) (hkeyword : keyword ∈ words)
    (hfront : front = [] ∨ ∃ more d, front = more ++ [d] ∧ Wordless more ∧ isBoundary d = true)
    (hc : isBoundary c = true) (hback : Wordless back)
    (h : start ++ word.toList ++ rest = front ++ (keyword.toList ++ c :: back)) :
    start = front ∧ word = keyword := by
  have hafter : ∀ {start : List Char}, start ++ word.toList ++ rest = keyword.toList ++ c :: back →
      start = [] ∧ word = keyword := by
    intro start h
    rcases before_or_behind (not_mem_of_isBoundary hword hc) h with
      ⟨more, hinside⟩ | ⟨more, _, rfl⟩
    · have hsame : ∀ w ∈ words, ∀ k ∈ words, w.toList <:+: k.toList → w = k := by decide
      obtain rfl := hsame word hword keyword hkeyword ⟨start, more, hinside.symm⟩
      have hlength := congrArg List.length hinside
      simp only [List.length_append] at hlength
      exact ⟨List.length_eq_zero_iff.mp (by omega), rfl⟩
    · exact absurd (List.infix_append more word.toList rest) (hback word hword)
  rcases hfront with rfl | ⟨more, d, rfl, hmore, hd⟩
  · exact hafter h
  · rw [List.append_assoc more, List.singleton_append] at h
    rcases before_or_behind (not_mem_of_isBoundary hword hd) h with
      ⟨last, rfl⟩ | ⟨last, rfl, hlast⟩
    · exact absurd (List.infix_append start word.toList last) (hmore word hword)
    · obtain ⟨rfl, heq⟩ := hafter hlast
      exact ⟨rfl, heq⟩

/-! ## The patterns by their words -/

/-- The patterns of imports, in the order in which they are searched for. -/
inductive Kind
  | fromStatement
  | importCall
  | requireCall
  | exportFrom
  deriving DecidableEq, Repr

namespace Kind

def all : List Kind := [.fromStatement, .importCall, .requireCall, .exportFrom]

def pattern : Kind → Pattern
  | .fromStatement => Import.fromStatement
  | .importCall => Import.importCall
  | .requireCall => Import.requireCall
  | .exportFrom => Import.exportFrom

def word : Kind → String
  | .fromStatement => "import"
  | .importCall => "import"
  | .requireCall => "require"
  | .exportFrom => "export"

/-- What is matched between the word and the quoted path. -/
def between : Kind → List Pattern
  | .fromStatement => [blanks1,
      optional (seqs [.repeated (.noneOf ";") 0 none .shortest, blanks1, "from", blanks1])]
  | .importCall => [blanks, "(", blanks]
  | .requireCall => [blanks, "(", blanks]
  | .exportFrom => [blanks1, exportedNames, blanks1, "from", blanks1]

/-- What is matched behind the quoted path. -/
def closing : Kind → List Pattern
  | .requireCall => [blanks, ")"]
  | _ => []

theorem patterns_eq : patterns = all.map pattern := rfl

theorem pattern_eq (k : Kind) :
    k.pattern = seqs ((literal k.word :: k.between) ++ quotedPath :: k.closing) := by
  cases k <;> rfl

theorem word_mem_words (k : Kind) : k.word ∈ words := by
  cases k <;> decide

theorem capturesNothing_opening (k : Kind) :
    (seqs (literal k.word :: k.between)).capturesNothing = true := by
  cases k <;> decide

variable {k : Kind} {cur e : Cursor}

/-- What is matched up to the quoted path, at it, and behind it. -/
theorem mem_ends_pattern : e ∈ ends k.pattern cur
    ↔ ∃ first ∈ ends (seqs (literal k.word :: k.between)) cur, ∃ mid ∈ ends quotedPath first,
      e ∈ ends (seqs k.closing) mid := by
  rw [pattern_eq, mem_ends_seqs_append]
  exact exists_congr fun first => and_congr_right fun _ => mem_ends_seqs_cons

theorem word_isPrefix_of_mem_ends (he : e ∈ ends k.pattern cur) : k.word.toList <+: cur.rest := by
  obtain ⟨first, hfirst, _⟩ := mem_ends_pattern.mp he
  obtain ⟨second, hsecond, _⟩ := mem_ends_seqs_cons.mp hfirst
  obtain ⟨rest, hrest, _⟩ := mem_ends_literal.mp hsecond
  exact ⟨rest, hrest.symm⟩

end Kind

end RepoSurvey.Import
