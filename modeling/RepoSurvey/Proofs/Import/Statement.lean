import RepoSurvey.Proofs.Import.Words

/-!
# Statements that name a module

The statements of a module that name another one, each on a line that a semicolon ends.

* `Import.Identifier`, `Import.NameList`, `Import.Clause`: the names in a statement;
* `Import.Form`: the forms of such a statement, and `Import.Form.kind`, the pattern for each;
* `Import.Statement`, `Import.Statement.text`;
* `Import.Statement.eq_of_word`: the words occur at the start of the statement only.
-/

namespace RepoSurvey.Import

open Pattern

/-! ## Names -/

/-- Letters and digits of ASCII, the underscore and the dollar sign. -/
def isIdentifierChar (c : Char) : Bool := c.isAlphanum || c == '_' || c == '$'

/-- An ASCII identifier in which none of the words occurs. -/
structure Identifier where
  chars : List Char
  starts : chars.head?.any (fun c => isIdentifierChar c && !c.isDigit) = true
  all : chars.all isIdentifierChar = true
  wordless : Wordless chars

def spaces (count : Nat) : List Char := List.replicate count ' '

/-- A name in a list, with the spaces around it. -/
structure Item where
  before : Nat
  name : Identifier
  after : Nat

namespace Item

def text (i : Item) : List Char := spaces i.before ++ (i.name.chars ++ spaces i.after)

/-- Names with commas between them. -/
def listing : List Item → List Char
  | [] => []
  | [i] => i.text
  | i :: rest => i.text ++ ',' :: listing rest

end Item

/-- A list of names in braces; an empty one may have spaces between the braces. -/
structure NameList where
  margin : Nat
  items : List Item

namespace NameList

def inner (l : NameList) : List Char := spaces l.margin ++ Item.listing l.items

def text (l : NameList) : List Char := '{' :: (l.inner ++ ['}'])

end NameList

/-- What is imported: a default name, everything under a name, a list of names, or both a default
name and a list. -/
inductive Clause
  | default (name : Identifier)
  | everything (name : Identifier)
  | names (list : NameList)
  | both (name : Identifier) (gap : Nat) (list : NameList)

def Clause.text : Clause → List Char
  | .default name => name.chars
  | .everything name => "* as ".toList ++ name.chars
  | .names list => list.text
  | .both name gap list => name.chars ++ ',' :: (spaces gap ++ list.text)

/-! ## Statements -/

inductive Form
  | importFrom (clause : Clause)
  | importOnly
  | importCall (name : Identifier)
  | requireCall (name : Identifier)
  | exportAll
  | exportNames (list : NameList)

namespace Form

/-- The pattern that is meant for the form. -/
def kind : Form → Kind
  | .importFrom _ => .fromStatement
  | .importOnly => .fromStatement
  | .importCall _ => .importCall
  | .requireCall _ => .requireCall
  | .exportAll => .exportFrom
  | .exportNames _ => .exportFrom

/-- The statement up to the quoted path. -/
def head : Form → List Char
  | .importFrom clause => "import ".toList ++ clause.text ++ " from ".toList
  | .importOnly => "import ".toList
  | .importCall name => "const ".toList ++ name.chars ++ " = import(".toList
  | .requireCall name => "const ".toList ++ name.chars ++ " = require(".toList
  | .exportAll => "export * from ".toList
  | .exportNames list => "export ".toList ++ list.text ++ " from ".toList

/-- The statement behind the quoted path, with the end of the line. -/
def tail : Form → List Char
  | .importCall _ => ");\n".toList
  | .requireCall _ => ");\n".toList
  | _ => ";\n".toList

end Form

/-- A statement that names a module by a quoted path. -/
structure Statement where
  form : Form
  mark : Char
  path : List Char
  isMark_mark : isMark mark = true
  path_ne_nil : path ≠ []
  inline_path : Inline path
  wordless_path : Wordless path

namespace Statement

def text (s : Statement) : List Char :=
  s.form.head ++ s.mark :: (s.path ++ s.mark :: s.form.tail)

def relative (s : Statement) : Bool := isRelative s.path

end Statement

/-! ## The characters of names -/

/-- The characters in a list of names. -/
def isListChar (c : Char) : Bool := isIdentifierChar c || c == ' ' || c == ','

/-- The characters of what is imported or exported. -/
def isClauseChar (c : Char) : Bool := isListChar c || "*\x7b\x7d".toList.contains c

theorem isListChar_of_identifier {c : Char} (h : isIdentifierChar c = true) :
    isListChar c = true := by
  rw [isListChar, h, Bool.true_or, Bool.true_or]

theorem isClauseChar_of_isListChar {c : Char} (h : isListChar c = true) :
    isClauseChar c = true := by
  rw [isClauseChar, h, Bool.true_or]

theorem ne_brace_of_isListChar {c : Char} (h : isListChar c = true) : c ≠ '}' := by
  rintro rfl
  exact absurd h (by decide)

theorem of_isClauseChar {c : Char} (h : isClauseChar c = true) :
    isMark c = false ∧ c ≠ ';' ∧ c ≠ '(' := by
  refine ⟨?_, ?_, ?_⟩
  · rw [← Bool.not_eq_true]
    intro hmark
    rcases isMark_iff.mp hmark with rfl | rfl | rfl <;> exact absurd h (by decide)
  · rintro rfl
    exact absurd h (by decide)
  · rintro rfl
    exact absurd h (by decide)

theorem isListChar_of_mem_spaces (count : Nat) : ∀ c ∈ spaces count, isListChar c = true := by
  intro c hc
  rw [List.eq_of_mem_replicate hc]
  rfl

theorem Identifier.isListChar_of_mem (name : Identifier) :
    ∀ c ∈ name.chars, isListChar c = true :=
  fun c hc => isListChar_of_identifier (List.all_eq_true.mp name.all c hc)

theorem Item.isListChar_of_mem (i : Item) : ∀ c ∈ i.text, isListChar c = true :=
  List.forall_mem_append.mpr ⟨isListChar_of_mem_spaces _,
    List.forall_mem_append.mpr ⟨i.name.isListChar_of_mem, isListChar_of_mem_spaces _⟩⟩

theorem Item.isListChar_of_mem_listing (items : List Item) :
    ∀ c ∈ listing items, isListChar c = true := by
  induction items with
  | nil => exact fun c hc => absurd hc List.not_mem_nil
  | cons i rest ih =>
    cases rest with
    | nil => exact i.isListChar_of_mem
    | cons j rest =>
      exact List.forall_mem_append.mpr ⟨i.isListChar_of_mem, List.forall_mem_cons.mpr ⟨rfl, ih⟩⟩

theorem NameList.isListChar_of_mem_inner (l : NameList) : ∀ c ∈ l.inner, isListChar c = true :=
  List.forall_mem_append.mpr ⟨isListChar_of_mem_spaces _, Item.isListChar_of_mem_listing _⟩

theorem NameList.isClauseChar_of_mem (l : NameList) : ∀ c ∈ l.text, isClauseChar c = true := by
  refine List.forall_mem_cons.mpr ⟨by decide, List.forall_mem_append.mpr ⟨?_, List.all_eq_true.mp (by decide)⟩⟩
  exact fun c hc => isClauseChar_of_isListChar (l.isListChar_of_mem_inner c hc)

theorem Clause.isClauseChar_of_mem (clause : Clause) :
    ∀ c ∈ clause.text, isClauseChar c = true := by
  have hname (name : Identifier) : ∀ c ∈ name.chars, isClauseChar c = true :=
    fun c hc => isClauseChar_of_isListChar (name.isListChar_of_mem c hc)
  cases clause with
  | default name => exact hname name
  | everything name => exact List.forall_mem_append.mpr ⟨List.all_eq_true.mp (by decide), hname name⟩
  | names list => exact list.isClauseChar_of_mem
  | both name gap list =>
    refine List.forall_mem_append.mpr ⟨hname name, List.forall_mem_cons.mpr ⟨by decide, ?_⟩⟩
    refine List.forall_mem_append.mpr ⟨fun c hc => ?_, list.isClauseChar_of_mem⟩
    exact isClauseChar_of_isListChar (isListChar_of_mem_spaces gap c hc)

/-! ## No words in names -/

theorem wordless_spaces_append (count : Nat) {text : List Char} (h : Wordless text) :
    Wordless (spaces count ++ text) := by
  induction count with
  | zero => exact h
  | succ count ih => exact ih.cons (by decide)

theorem Item.wordless_text (i : Item) : Wordless i.text := by
  apply wordless_spaces_append
  cases i.after with
  | zero => simpa [spaces] using i.name.wordless
  | succ after =>
    have hspaces : Wordless (spaces after) := by
      simpa using wordless_spaces_append after wordless_nil
    exact i.name.wordless.append_cons (by decide) hspaces

theorem Item.wordless_listing (items : List Item) : Wordless (listing items) := by
  induction items with
  | nil => exact wordless_nil
  | cons i rest ih =>
    cases rest with
    | nil => exact i.wordless_text
    | cons j rest => exact i.wordless_text.append_cons (by decide) ih

theorem NameList.wordless_text (l : NameList) : Wordless l.text := by
  have hinner : Wordless l.inner := wordless_spaces_append l.margin (Item.wordless_listing l.items)
  exact (hinner.append_cons (by decide) wordless_nil).cons (by decide)

theorem Clause.wordless_text (clause : Clause) : Wordless clause.text := by
  cases clause with
  | default name => exact name.wordless
  | everything name =>
    have hword : Wordless "* as".toList := by decide
    exact hword.append_cons (c := ' ') (by decide) name.wordless
  | names list => exact list.wordless_text
  | both name gap list =>
    exact name.wordless.append_cons (by decide) (wordless_spaces_append gap list.wordless_text)

/-! ## The parts of a statement -/

/-- The character behind the word in a statement. -/
def Kind.gap : Kind → Char
  | .fromStatement => ' '
  | .importCall => '('
  | .requireCall => '('
  | .exportFrom => ' '

theorem Kind.isBoundary_gap (k : Kind) : isBoundary k.gap = true := by
  cases k <;> decide

namespace Form

/-- What stands before the word. -/
def front : Form → List Char
  | .importCall name => "const ".toList ++ name.chars ++ " = ".toList
  | .requireCall name => "const ".toList ++ name.chars ++ " = ".toList
  | _ => []

/-- What stands between that character and the quoted path. -/
def inner : Form → List Char
  | .importFrom clause => clause.text ++ " from ".toList
  | .exportAll => "* from ".toList
  | .exportNames list => list.text ++ " from ".toList
  | _ => []

/-- The word and what stands between it and the quoted path. -/
def lead (f : Form) : List Char := f.kind.word.toList ++ f.kind.gap :: f.inner

theorem head_eq (f : Form) : f.head = f.front ++ f.lead := by
  have himport : "import ".toList = "import".toList ++ [' '] := rfl
  have hexport : "export ".toList = "export".toList ++ [' '] := rfl
  have hcall : " = import(".toList = " = ".toList ++ ("import".toList ++ ['(']) := rfl
  have hrequire : " = require(".toList = " = ".toList ++ ("require".toList ++ ['(']) := rfl
  cases f with
  | importFrom clause =>
    show "import ".toList ++ clause.text ++ " from ".toList
      = [] ++ ("import".toList ++ ' ' :: (clause.text ++ " from ".toList))
    rw [List.nil_append, himport, List.append_assoc, List.append_assoc, List.singleton_append]
  | importOnly => rfl
  | importCall name =>
    show "const ".toList ++ name.chars ++ " = import(".toList
      = ("const ".toList ++ name.chars ++ " = ".toList) ++ ("import".toList ++ ['('])
    rw [hcall, List.append_assoc _ " = ".toList]
  | requireCall name =>
    show "const ".toList ++ name.chars ++ " = require(".toList
      = ("const ".toList ++ name.chars ++ " = ".toList) ++ ("require".toList ++ ['('])
    rw [hrequire, List.append_assoc _ " = ".toList]
  | exportAll => rfl
  | exportNames list =>
    show "export ".toList ++ list.text ++ " from ".toList
      = [] ++ ("export".toList ++ ' ' :: (list.text ++ " from ".toList))
    rw [List.nil_append, hexport, List.append_assoc, List.append_assoc, List.singleton_append]

theorem tail_cases (f : Form) : f.tail = ";\n".toList ∨ f.tail = ");\n".toList := by
  cases f with
  | importCall | requireCall => exact Or.inr rfl
  | importFrom | importOnly | exportAll | exportNames => exact Or.inl rfl

theorem isClauseChar_of_mem_inner (f : Form) : ∀ c ∈ f.inner, isClauseChar c = true := by
  cases f with
  | importFrom clause =>
    exact List.forall_mem_append.mpr ⟨clause.isClauseChar_of_mem, List.all_eq_true.mp (by decide)⟩
  | exportAll => exact List.all_eq_true.mp (by decide)
  | exportNames list =>
    exact List.forall_mem_append.mpr ⟨list.isClauseChar_of_mem, List.all_eq_true.mp (by decide)⟩
  | importOnly | importCall | requireCall => exact fun c hc => absurd hc List.not_mem_nil

theorem wordless_inner (f : Form) : Wordless f.inner := by
  have hfrom : Wordless "from ".toList := by decide
  cases f with
  | importFrom clause => exact clause.wordless_text.append_cons (c := ' ') (by decide) hfrom
  | exportAll => decide
  | exportNames list => exact list.wordless_text.append_cons (c := ' ') (by decide) hfrom
  | importOnly | importCall | requireCall => exact wordless_nil

theorem wordless_tail (f : Form) : Wordless f.tail := by
  rcases f.tail_cases with h | h <;> rw [h] <;> decide

/-- The statement starts with the word, or there is a boundary before it. -/
theorem front_cases (f : Form) : f.front = []
    ∨ ∃ more d, f.front = more ++ [d] ∧ Wordless more ∧ isBoundary d = true := by
  have hconst (name : Identifier) : Wordless ("const ".toList ++ name.chars ++ " =".toList) := by
    have hword : Wordless "const".toList := by decide
    have hequals : Wordless "=".toList := by decide
    have hdeclared := hword.append_cons (c := ' ') (by decide) name.wordless
    exact hdeclared.append_cons (c := ' ') (by decide) hequals
  have hspace (name : Identifier) : "const ".toList ++ name.chars ++ " = ".toList
      = ("const ".toList ++ name.chars ++ " =".toList) ++ [' '] := by
    have hequals : " = ".toList = " =".toList ++ [' '] := rfl
    rw [hequals, List.append_assoc _ " =".toList]
  cases f with
  | importCall name => exact Or.inr ⟨_, ' ', hspace name, hconst name, by decide⟩
  | requireCall name => exact Or.inr ⟨_, ' ', hspace name, hconst name, by decide⟩
  | importFrom | importOnly | exportAll | exportNames => exact Or.inl rfl

theorem of_mem_lead (f : Form) : ∀ c ∈ f.lead, isMark c = false ∧ c ≠ ';' := by
  have hclause {c : Char} (h : isClauseChar c = true) : isMark c = false ∧ c ≠ ';' := by
    obtain ⟨hmark, hsemicolon, _⟩ := of_isClauseChar h
    exact ⟨hmark, hsemicolon⟩
  have hword : ∀ c ∈ f.kind.word.toList, isClauseChar c = true := by
    apply List.all_eq_true.mp
    cases f.kind <;> decide
  have hgap : isMark f.kind.gap = false ∧ f.kind.gap ≠ ';' := by
    cases f.kind <;> decide
  refine List.forall_mem_append.mpr ⟨fun c hc => hclause (hword c hc), ?_⟩
  exact List.forall_mem_cons.mpr ⟨hgap, fun c hc => hclause (f.isClauseChar_of_mem_inner c hc)⟩

/-- The part of the tail that the pattern for the form matches, and the rest of it. -/
def tailParts : Form → List Char × List Char
  | .importCall _ => ([], ");\n".toList)
  | .requireCall _ => ([')'], ";\n".toList)
  | _ => ([], ";\n".toList)

theorem tail_eq (f : Form) : f.tail = f.tailParts.1 ++ f.tailParts.2 := by
  cases f <;> rfl

end Form

/-! ## Where the words occur -/

namespace Statement

variable {s : Statement} {k : Kind} {cur e : Cursor} {more : List Char}

/-- The statement from the word on. -/
def body (s : Statement) : List Char :=
  s.form.lead ++ s.mark :: (s.path ++ s.mark :: s.form.tail)

theorem text_eq (s : Statement) : s.text = s.form.front ++ s.body := by
  rw [text, Form.head_eq, List.append_assoc]
  rfl

theorem isBoundary_mark (s : Statement) : isBoundary s.mark = true := by
  rcases isMark_iff.mp s.isMark_mark with h | h | h <;> rw [h] <;> decide

/-- Every part of a statement that is not empty ends with the line. -/
theorem exists_newline {u v : List Char} (hsplit : s.text = u ++ v) (hv : v ≠ []) :
    ∃ front, v = front ++ ['\n'] := by
  have hend : ∃ front, s.text = front ++ ['\n'] := by
    have htail : ∃ front, s.form.tail = front ++ ['\n'] := by
      rcases s.form.tail_cases with h | h
      · exact ⟨";".toList, h⟩
      · exact ⟨");".toList, h⟩
    obtain ⟨front, hfront⟩ := htail
    refine ⟨s.form.head ++ s.mark :: (s.path ++ s.mark :: front), ?_⟩
    rw [text, hfront]
    simp
  obtain ⟨front, hfront⟩ := hend
  rcases List.eq_nil_or_concat v with rfl | ⟨last, c, rfl⟩
  · exact absurd rfl hv
  · rw [List.concat_eq_append, ← List.append_assoc, hfront] at hsplit
    obtain ⟨_, hc⟩ := List.append_inj' hsplit rfl
    exact ⟨last, by rw [List.concat_eq_append, hc]⟩

/-- A word that occurs in a statement, even if it went on behind it, is the one it starts with. -/
theorem eq_of_word {u v : List Char} (hsplit : s.text = u ++ v) (hv : v ≠ [])
    (hword : k.word.toList <+: v ++ more) :
    u = s.form.front ∧ k.word = s.form.kind.word := by
  obtain ⟨front, rfl⟩ := exists_newline hsplit hv
  obtain ⟨rest, hrest⟩ := hword
  have hnewline : '\n' ∉ k.word.toList := not_mem_of_isBoundary k.word_mem_words (by decide)
  have hinside : [] ++ k.word.toList ++ rest = front ++ '\n' :: more := by
    rw [List.nil_append, hrest, List.append_assoc, List.singleton_append]
  rcases before_or_behind hnewline hinside with ⟨last, rfl⟩ | ⟨last, hnil, _⟩
  · have hback : Wordless (s.form.inner ++ s.mark :: (s.path ++ s.mark :: s.form.tail)) :=
      s.form.wordless_inner.append_cons s.isBoundary_mark
        (s.wordless_path.append_cons s.isBoundary_mark s.form.wordless_tail)
    have hwhole : u ++ k.word.toList ++ (last ++ ['\n']) = s.form.front
        ++ (s.form.kind.word.toList ++ s.form.kind.gap :: (s.form.inner
          ++ s.mark :: (s.path ++ s.mark :: s.form.tail))) := by
      rw [text_eq, body, Form.lead] at hsplit
      simpa only [List.nil_append, List.append_assoc, List.cons_append] using hsplit.symm
    exact eq_of_occurrence k.word_mem_words s.form.kind.word_mem_words s.form.front_cases
      s.form.kind.isBoundary_gap hback hwhole
  · simp at hnil

end Statement

end RepoSurvey.Import
