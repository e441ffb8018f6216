import RepoSurvey.Proofs.Import.Words
import RepoSurvey.Proofs.Organization.Distinct

/-!
# Counting re-exports

In a text of statements the pattern for re-exports matches those that are meant, and no part of any
other. So an index file is reported for the statements in it.

* `Organization.opens`: what stands where a match starts;
* `Organization.Still`: a part of a text in which no match starts, whatever is read there;
* `Organization.mem_ends_reexport_iff`: where a match ends;
* `Organization.Statement`: exports and imports, each on a line of its own;
* `Organization.Statement.findFrom_text`: the search goes through a statement;
* `Organization.reexports_moduleText`: the number of re-exports;
* `Organization.barrelBloats_moduleText`: the index files that are reported.
-/

namespace RepoSurvey.Organization

open Pattern

/-! ## Where a match can start -/

section Opening

/-- A star or a brace comes next, behind any blanks. -/
def namesNext (text : List Char) : Bool :=
  (text.dropWhile Text.isBlank).head?.any fun c => c == '*' || c == '{'

/-- The word, a blank, and a star or a brace come next: a match may start here. -/
def opens (text : List Char) : Bool :=
  "export".toList.isPrefixOf text
    && ((text.drop "export".length).head?.any Text.isBlank && namesNext (text.drop "export".length))

variable {text front back more : List Char} {c : Char}

theorem opens_iff : opens text = true ↔ ∃ rest, text = "export".toList ++ rest
    ∧ rest.head?.any Text.isBlank = true ∧ namesNext rest = true := by
  rw [opens, Bool.and_eq_true, Bool.and_eq_true, List.isPrefixOf_iff_prefix]
  constructor
  · rintro ⟨⟨rest, rfl⟩, hblank, hnames⟩
    rw [show "export".length = "export".toList.length from rfl, List.drop_left] at hblank hnames
    exact ⟨rest, rfl, hblank, hnames⟩
  · rintro ⟨rest, rfl, hblank, hnames⟩
    rw [show "export".length = "export".toList.length from rfl, List.drop_left]
    exact ⟨⟨rest, rfl⟩, hblank, hnames⟩

/-- Names come next in the first of two texts, if not in the second. -/
theorem namesNext_of_append (hback : namesNext back = false)
    (h : namesNext (front ++ back) = true) : front ≠ [] ∧ namesNext front = true := by
  rw [namesNext, List.dropWhile_append] at h
  cases hdrop : front.dropWhile Text.isBlank with
  | nil =>
    rw [hdrop, List.isEmpty_nil, if_pos rfl] at h
    rw [namesNext, h] at hback
    cases hback
  | cons c rest =>
    rw [hdrop, List.isEmpty_cons, if_neg Bool.false_ne_true] at h
    refine ⟨?_, ?_⟩
    · rintro rfl
      cases hdrop
    · rw [namesNext, hdrop]
      exact h

theorem opens_of_mem_ends {cur e : Cursor} (he : e ∈ ends reexport cur) :
    opens cur.rest = true := by
  obtain ⟨first, hfirst, he⟩ := mem_ends_seqs_cons.mp he
  obtain ⟨second, hsecond, he⟩ := mem_ends_seqs_cons.mp he
  obtain ⟨third, hthird, _⟩ := mem_ends_seqs_cons.mp he
  obtain ⟨rest, hrest, rfl⟩ := mem_ends_literal.mp hfirst
  obtain ⟨gap, behind, hgap, hblank, hne, rfl⟩ := mem_ends_blanks1.mp hsecond
  have hnext : ∃ d left, behind = d :: left ∧ (d == '*' || d == '{') = true := by
    rcases mem_ends_alt.mp hthird with h | h
    · obtain ⟨left, hleft, _⟩ := mem_ends_literal.mp h
      exact ⟨'*', left, hleft, rfl⟩
    · obtain ⟨_, h, _⟩ := mem_ends_seqs_cons.mp h
      obtain ⟨left, hleft, _⟩ := mem_ends_literal.mp h
      exact ⟨'{', left, hleft, rfl⟩
  obtain ⟨d, left, rfl, hd⟩ := hnext
  have hgap' : rest = gap ++ d :: left := hgap
  have hstop : ∀ b, (d :: left).head? = some b → Text.isBlank b = false := by
    intro b hb
    obtain rfl := Option.some.inj hb
    rcases (Bool.or_eq_true _ _).mp hd with h | h <;> rw [beq_iff_eq.mp h] <;> decide
  refine opens_iff.mpr ⟨rest, hrest, ?_, ?_⟩
  · obtain ⟨b, gap, rfl⟩ := List.exists_cons_of_ne_nil hne
    rw [hgap']
    exact hblank b List.mem_cons_self
  · rw [namesNext, hgap', (takeWhile_stop hblank hstop).2]
    exact hd

/-- A text with `more` behind it in which no match starts. -/
def Still (text more : List Char) : Prop :=
  ∀ u v, text = u ++ v → v ≠ [] → opens (v ++ more) = false

theorem Still.append (hfront : Still front (back ++ more)) (hback : Still back more) :
    Still (front ++ back) more := by
  intro u v hsplit hv
  rcases List.append_eq_append_iff.mp hsplit with ⟨left, rfl, rfl⟩ | ⟨left, rfl, rfl⟩
  · exact hback left v rfl hv
  · cases left with
    | nil => exact hback [] back rfl hv
    | cons c left =>
      rw [List.append_assoc]
      exact hfront u (c :: left) rfl (List.cons_ne_nil c left)

/-- A match starts with the first letter of the word. -/
theorem still_of_not_mem (h : 'e' ∉ text) : Still text more := by
  intro u v hsplit hv
  obtain ⟨c, v, rfl⟩ := List.exists_cons_of_ne_nil hv
  rw [← Bool.not_eq_true]
  intro hopens
  obtain ⟨rest, hrest, _⟩ := opens_iff.mp hopens
  have hword : "export".toList = 'e' :: "xport".toList := rfl
  rw [hword] at hrest
  obtain ⟨rfl, _⟩ := List.cons.inj hrest
  exact h (by rw [hsplit]; simp)

/-- No match starts anywhere in the text. -/
def Quiet (text : List Char) : Prop := ∀ v ∈ text.tails, opens v = false

instance (text : List Char) : Decidable (Quiet text) :=
  inferInstanceAs (Decidable (∀ v ∈ text.tails, opens v = false))

/-- A text without the word is quiet, and so are some that it occurs in. -/
theorem quiet_of_not_infix (h : ¬ "export".toList <:+: text) : Quiet text := by
  intro v hv
  rw [← Bool.not_eq_true]
  intro hopens
  obtain ⟨rest, rfl, _⟩ := opens_iff.mp hopens
  exact h ((List.prefix_append _ rest).isInfix.trans ((List.mem_tails _ _).mp hv).isInfix)

/-- What follows a quiet text makes no difference if it starts with no letter of the word and no
names come next. -/
theorem Quiet.still (h : Quiet text) (hc : c ∉ "export".toList)
    (hnames : namesNext (c :: more) = false) : Still text (c :: more) := by
  intro u v hsplit hv
  rw [← Bool.not_eq_true]
  intro hopens
  obtain ⟨rest, hrest, hblank, hnext⟩ := opens_iff.mp hopens
  have hinside : [] ++ "export".toList ++ rest = v ++ c :: more := hrest.symm
  rcases Import.before_or_behind hc hinside with ⟨left, rfl⟩ | ⟨left, hnil, _⟩
  · rw [List.nil_append, List.append_assoc] at hrest
    rw [← List.append_cancel_left hrest] at hblank hnext
    obtain ⟨hleft, hfound⟩ := namesNext_of_append hnames hnext
    have hquiet := h ("export".toList ++ left) ((List.mem_tails _ _).mpr ⟨u, hsplit.symm⟩)
    rw [opens_iff.mpr ⟨left, rfl, ?_, hfound⟩] at hquiet
    · cases hquiet
    · rwa [List.head?_append_of_ne_nil _ hleft] at hblank
  · simp at hnil

end Opening

/-! ## Statements -/

/-- A text that stands in a statement. -/
structure Phrase where
  chars : List Char
  quiet : Quiet chars

/-- A text between two quotation marks of one kind. -/
structure Quoted extends Phrase where
  mark : Char
  isMark_mark : Import.isMark mark = true

/-- What stands between two braces, over one line or many. -/
structure NameList extends Phrase where
  brace_free : '}' ∉ chars

/-- What is exported: everything, or names in braces. -/
inductive Exported
  | everything
  | names (list : NameList)

inductive Statement
  | exportFrom (exported : Exported) (path : Quoted)
  | exportNames (list : NameList)
  | exportConst (name : Phrase)
  | importFrom (clause : Phrase) (path : Quoted)
  | importOnly (path : Quoted)

def Quoted.text (q : Quoted) : List Char := q.mark :: (q.chars ++ [q.mark])

def NameList.text (l : NameList) : List Char := '{' :: (l.chars ++ ['}'])

def Exported.text : Exported → List Char
  | .everything => ['*']
  | .names list => list.text

namespace Statement

def body : Statement → List Char
  | .exportFrom exported path => "export ".toList ++ exported.text ++ " from ".toList ++ path.text
  | .exportNames list => "export ".toList ++ list.text
  | .exportConst name => "export const ".toList ++ name.chars ++ " = 1".toList
  | .importFrom clause path => "import ".toList ++ clause.chars ++ " from ".toList ++ path.text
  | .importOnly path => "import ".toList ++ path.text

/-- The statement, with the semicolon and the line feed that end it. -/
def text (s : Statement) : List Char := s.body ++ ";\n".toList

def isReexport : Statement → Bool
  | .exportFrom _ _ => true
  | _ => false

end Statement

/-! ## Matches -/

variable {cur e : Cursor} {more : List Char}

theorem Exported.not_blank_next (exported : Exported) :
    ∀ c, (exported.text ++ more).head? = some c → Text.isBlank c = false := by
  intro c hc
  cases exported <;> obtain rfl := Option.some.inj hc <;> decide

theorem Exported.mem_ends_iff {exported : Exported} (hrest : cur.rest = exported.text ++ more) :
    e ∈ ends Import.exportedNames cur ↔ e = cur.after exported.text more := by
  cases exported with
  | everything => exact Import.mem_ends_everything hrest
  | names list =>
    refine Import.mem_ends_braces list.brace_free ?_
    rw [hrest, text, NameList.text]
    simp

/-- The part of a re-export that is matched: up to the opening quotation mark. -/
def head (exported : Exported) (mark : Char) : List Char :=
  "export".toList ++ ' ' :: (exported.text ++ ' ' :: ("from".toList ++ [' ', mark]))

/-- A match of a re-export can end at one place only. -/
theorem mem_ends_reexport_iff {exported : Exported} {mark : Char}
    (hmark : Import.isMark mark = true) (hrest : cur.rest = head exported mark ++ more) :
    e ∈ ends reexport cur ↔ e = cur.after (head exported mark) more := by
  have hexport : cur.rest = "export".toList ++ ' ' :: (exported.text
      ++ ' ' :: ("from".toList ++ ' ' :: mark :: more)) := by
    rw [hrest, head]
    simp only [List.append_assoc, List.cons_append, List.nil_append]
  have hfrom : ∀ c, ("from".toList ++ ' ' :: mark :: more).head? = some c →
      Text.isBlank c = false := Import.not_blank_next (by decide) _
  have hstop : ∀ c, (mark :: more).head? = some c → Text.isBlank c = false :=
    Import.not_blank_next (Import.isBlank_of_isMark hmark) more
  rw [reexport, mem_ends_seqs_cons_of_unique fun m => mem_ends_literal_of_eq hexport,
    mem_ends_seqs_cons_of_unique fun m => Import.mem_ends_space rfl exported.not_blank_next,
    mem_ends_seqs_cons_of_unique fun m => Exported.mem_ends_iff rfl,
    mem_ends_seqs_cons_of_unique fun m => Import.mem_ends_space rfl hfrom,
    mem_ends_seqs_cons_of_unique fun m => mem_ends_literal_of_eq rfl,
    mem_ends_seqs_cons_of_unique fun m => Import.mem_ends_space rfl hstop, seqs,
    mem_ends_one_of_eq rfl hmark]
  simp only [Cursor.after_after, head, List.append_assoc, List.cons_append, List.nil_append]

variable {b : Option Char} {o : Nat}

theorem matchAt?_eq_none_of_opens {text : List Char} (h : opens text = false) :
    reexport.matchAt? b o text = none := by
  cases hm : reexport.matchAt? b o text with
  | none => rfl
  | some m =>
    obtain ⟨e, he, _⟩ := exists_of_matchAt? hm
    rw [opens_of_mem_ends he] at h
    cases h

theorem matchAt?_head {exported : Exported} {mark : Char} (hmark : Import.isMark mark = true) :
    reexport.matchAt? b o (head exported mark ++ more)
      = some ⟨o, o + (head exported mark).length, []⟩ := by
  have hends : ∀ e, e ∈ ends reexport ⟨b, head exported mark ++ more, o, []⟩
      ↔ e = Cursor.after ⟨b, head exported mark ++ more, o, []⟩ (head exported mark) more :=
    fun e => mem_ends_reexport_iff hmark rfl
  rw [matchAt?_eq_run]
  refine run_eq_some_of_unique ⟨_, (hends _).mpr rfl, rfl⟩ fun e he m hm => ?_
  rw [(hends e).mp he] at hm
  exact (Option.some.inj hm).symm

/-! ## The search -/

theorem Quoted.mark_ne (q : Quoted) {c : Char} (hc : Import.isMark c = false) : q.mark ≠ c := by
  intro heq
  have hmark := q.isMark_mark
  rw [heq, hc] at hmark
  cases hmark

theorem namesNext_of_not_blank {c : Char} (hc : Text.isBlank c = false)
    (hnames : (c == '*' || c == '{') = false) (rest : List Char) :
    namesNext (c :: rest) = false := by
  rw [namesNext, List.dropWhile_cons_of_neg (by simp [hc])]
  exact hnames

/-- A part with a phrase in it, between characters that are not the first of the word. -/
theorem Phrase.still (p : Phrase) {front back : List Char} {c : Char} (hfront : 'e' ∉ front)
    (hc : c ∉ "export".toList) (hback : 'e' ∉ c :: back)
    (hnames : namesNext (c :: (back ++ more)) = false) :
    Still (front ++ (p.chars ++ c :: back)) more :=
  (still_of_not_mem hfront).append ((p.quiet.still hc hnames).append (still_of_not_mem hback))

theorem Quoted.still (q : Quoted) {front : List Char} (hfront : 'e' ∉ front) (more : List Char) :
    Still (front ++ (q.chars ++ q.mark :: ";\n".toList)) more := by
  have hword : q.mark ∉ "export".toList := by
    have hnone : "export".toList.all (! Import.isMark ·) = true := by decide
    intro hmem
    exact q.mark_ne ((Bool.not_eq_true' _).mp (List.all_eq_true.mp hnone _ hmem)) rfl
  have hback : 'e' ∉ q.mark :: ";\n".toList :=
    List.not_mem_cons_of_ne_of_not_mem (q.mark_ne (by decide)).symm (by decide)
  have hnames : (q.mark == '*' || q.mark == '{') = false := by
    rw [beq_eq_false_iff_ne.mpr (q.mark_ne (by decide)),
      beq_eq_false_iff_ne.mpr (q.mark_ne (by decide)), Bool.or_false]
  exact q.toPhrase.still hfront hword hback
    (namesNext_of_not_blank (Import.isBlank_of_isMark q.isMark_mark) hnames _)

namespace Statement

theorem text_exportFrom (exported : Exported) (path : Quoted) : (exportFrom exported path).text
    = head exported path.mark ++ (path.chars ++ path.mark :: ";\n".toList) := by
  show ("export".toList ++ [' ']) ++ exported.text ++ (' ' :: ("from".toList ++ [' ']))
    ++ path.mark :: (path.chars ++ [path.mark]) ++ ";\n".toList = _
  simp only [head, List.append_assoc, List.cons_append, List.nil_append]

theorem text_importFrom (clause : Phrase) (path : Quoted) : (importFrom clause path).text
    = ("import ".toList ++ (clause.chars ++ ' ' :: "from ".toList))
      ++ ([path.mark] ++ (path.chars ++ path.mark :: ";\n".toList)) := by
  show "import ".toList ++ clause.chars ++ (' ' :: "from ".toList)
    ++ (path.mark :: (path.chars ++ [path.mark])) ++ ";\n".toList = _
  simp only [List.append_assoc, List.cons_append, List.nil_append]

theorem text_importOnly (path : Quoted) : (importOnly path).text
    = ("import ".toList ++ [path.mark]) ++ (path.chars ++ path.mark :: ";\n".toList) := by
  show "import ".toList ++ (path.mark :: (path.chars ++ [path.mark])) ++ ";\n".toList = _
  simp only [List.append_assoc, List.cons_append, List.nil_append]

theorem text_exportConst (name : Phrase) : (exportConst name).text = 'e' :: ("xport const ".toList
    ++ (name.chars ++ ' ' :: ("= 1".toList ++ ";\n".toList))) := by
  show 'e' :: ("xport const ".toList ++ name.chars) ++ (' ' :: "= 1".toList) ++ ";\n".toList = _
  simp only [List.append_assoc, List.cons_append]

theorem text_exportNames (list : NameList) : (exportNames list).text = 'e' :: (("xport ".toList
    ++ ['{']) ++ (list.chars ++ '}' :: ";\n".toList)) := by
  show 'e' :: "xport ".toList ++ ('{' :: (list.chars ++ ['}'])) ++ ";\n".toList = _
  simp only [List.append_assoc, List.cons_append, List.nil_append]

/-- Behind names that are exported stands no blank, so that `from` cannot follow. -/
theorem matchAt?_exportNames (list : NameList) :
    reexport.matchAt? b o ((exportNames list).text ++ more) = none := by
  have hrest : (exportNames list).text ++ more
      = "export".toList ++ ' ' :: ((Exported.names list).text ++ ';' :: '\n' :: more) := by
    show ("export".toList ++ [' ']) ++ list.text ++ [';', '\n'] ++ more
      = "export".toList ++ ' ' :: (list.text ++ ';' :: '\n' :: more)
    simp only [List.append_assoc, List.cons_append, List.nil_append]
  cases hm : reexport.matchAt? b o ((exportNames list).text ++ more) with
  | none => rfl
  | some m =>
    obtain ⟨e, he, _⟩ := exists_of_matchAt? hm
    rw [reexport, mem_ends_seqs_cons_of_unique fun m => mem_ends_literal_of_eq hrest,
      mem_ends_seqs_cons_of_unique fun m =>
        Import.mem_ends_space rfl (Exported.names list).not_blank_next,
      mem_ends_seqs_cons_of_unique fun m => (Exported.names list).mem_ends_iff rfl] at he
    obtain ⟨first, hfirst, _⟩ := mem_ends_seqs_cons.mp he
    obtain ⟨gap, rest, hgap, hblank, hne, _⟩ := mem_ends_blanks1.mp hfirst
    obtain ⟨c, gap, rfl⟩ := List.exists_cons_of_ne_nil hne
    obtain ⟨rfl, _⟩ := List.cons.inj hgap
    exact absurd (hblank ';' List.mem_cons_self) (by decide)

/-- A statement that starts with the word, but is no re-export, is passed if the pattern does not
match at the word. -/
theorem matchAt?_of_first {text u v : List Char} (htail : Still text more)
    (hfirst : reexport.matchAt? b o ('e' :: (text ++ more)) = none)
    (hsplit : 'e' :: text = u ++ v) (hv : v ≠ []) : reexport.matchAt? b o (v ++ more) = none := by
  cases u with
  | nil =>
    have hwhole : 'e' :: text = v := hsplit
    rwa [← hwhole]
  | cons c u => exact matchAt?_eq_none_of_opens (htail u v (List.cons.inj hsplit).2 hv)

/-- No match starts in a statement that is no re-export. -/
theorem matchAt?_text {s : Statement} (hs : s.isReexport = false) {u v : List Char}
    (hsplit : s.text = u ++ v) (hv : v ≠ []) : reexport.matchAt? b o (v ++ more) = none := by
  have hmark (path : Quoted) : 'e' ∉ [path.mark] :=
    List.not_mem_cons_of_ne_of_not_mem (path.mark_ne (by decide)).symm List.not_mem_nil
  cases s with
  | exportFrom exported path => cases hs
  | exportNames list =>
    have htail : Still (("xport ".toList ++ ['{']) ++ (list.chars ++ '}' :: ";\n".toList)) more :=
      list.toPhrase.still (by decide) (by decide) (by decide)
        (namesNext_of_not_blank (by decide) (by decide) _)
    have hfirst := @matchAt?_exportNames more b o list
    rw [text_exportNames] at hsplit hfirst
    exact matchAt?_of_first htail hfirst hsplit hv
  | exportConst name =>
    have htail : Still ("xport const ".toList
        ++ (name.chars ++ ' ' :: ("= 1".toList ++ ";\n".toList))) more :=
      name.still (by decide) (by decide) (by decide) rfl
    rw [text_exportConst] at hsplit
    exact matchAt?_of_first htail (matchAt?_eq_none_of_opens rfl) hsplit hv
  | importFrom clause path =>
    have hclause : Still ("import ".toList ++ (clause.chars ++ ' ' :: "from ".toList))
        ([path.mark] ++ (path.chars ++ path.mark :: ";\n".toList) ++ more) :=
      clause.still (by decide) (by decide) (by decide) rfl
    rw [text_importFrom] at hsplit
    exact matchAt?_eq_none_of_opens
      (hclause.append (path.still (hmark path) more) u v hsplit hv)
  | importOnly path =>
    have hfront : 'e' ∉ "import ".toList ++ [path.mark] := by
      rw [List.mem_append]
      exact not_or.mpr ⟨by decide, hmark path⟩
    rw [text_importOnly] at hsplit
    exact matchAt?_eq_none_of_opens (path.still hfront more u v hsplit hv)

/-- The search goes through a statement, and finds a re-export once. -/
theorem findFrom_text (s : Statement) (earlier : List Match) : ∃ b' o' ms,
    ms.length = (if s.isReexport then 1 else 0)
      ∧ reexport.findFrom b o 0 earlier (s.text ++ more)
        = reexport.findFrom b' o' 0 (ms ++ earlier) more := by
  cases hs : s.isReexport with
  | false => exact ⟨_, _, [], rfl, findFrom_of_forall_none fun _ _ _ _ hsplit hv =>
      matchAt?_text hs hsplit hv⟩
  | true =>
    cases s with
    | exportFrom exported path =>
      have hrest : Still ([] ++ (path.chars ++ path.mark :: ";\n".toList)) more :=
        path.still List.not_mem_nil more
      have hhead : head exported path.mark ≠ [] := by simp [head]
      rw [text_exportFrom, List.append_assoc]
      refine ⟨_, _, [_], rfl, (findFrom_of_match hhead (matchAt?_head path.isMark_mark) rfl).trans
        (findFrom_of_forall_none fun u v b o hsplit hv => ?_)⟩
      exact matchAt?_eq_none_of_opens (hrest u v hsplit hv)
    | exportNames | exportConst | importFrom | importOnly => cases hs

/-- The text of a module, statement by statement. -/
def moduleText (ss : List Statement) : List Char := ss.flatMap text

theorem length_findFrom (ss : List Statement) (earlier : List Match) :
    (reexport.findFrom b o 0 earlier (moduleText ss)).length
      = earlier.length + ss.countP isReexport := by
  induction ss generalizing b o earlier with
  | nil =>
    have hnone : reexport.matchAt? b o [] = none := matchAt?_eq_none_of_opens rfl
    simp [moduleText, findFrom, hnone]
  | cons s ss ih =>
    obtain ⟨b', o', ms, hms, hnext⟩ := @findFrom_text (moduleText ss) b o s earlier
    have hmodule : moduleText (s :: ss) = s.text ++ moduleText ss := rfl
    rw [hmodule, hnext, ih, List.length_append, hms, List.countP_cons]
    omega

theorem reexports_moduleText (ss : List Statement) :
    reexports (moduleText ss) = ss.countP isReexport := by
  rw [reexports, count, findAll, length_findFrom]
  exact Nat.zero_add _

end Statement

/-! ## The findings -/

/-- Of findings each on its own file, those on one file. -/
theorem filter_paths_filterMap {α : Type} {items : List α} {name : α → String}
    {report : α → Option Finding} (h : ∀ a f, report a = some f → f.paths = [name a])
    (hnodup : (items.map name).Nodup) {a : α} (ha : a ∈ items) :
    (items.filterMap report).filter (fun f => f.paths = [name a]) = (report a).toList := by
  have hother : ∀ others : List α, name a ∉ others.map name →
      (others.filterMap report).filter (fun f => f.paths = [name a]) = [] := by
    intro others hnot
    rw [List.filter_eq_nil_iff]
    intro f hf heq
    obtain ⟨b, hb, hreport⟩ := List.mem_filterMap.mp hf
    rw [h b f hreport, decide_eq_true_eq] at heq
    exact hnot ((List.cons.inj heq).1 ▸ List.mem_map_of_mem hb)
  obtain ⟨before, after, rfl⟩ := List.append_of_mem ha
  rw [List.map_append, List.map_cons, List.nodup_middle] at hnodup
  obtain ⟨hbefore, hafter⟩ := not_or.mp (List.mem_append.not.mp (List.nodup_cons.mp hnodup).1)
  rw [List.filterMap_append, List.filterMap_cons, List.filter_append, hother before hbefore]
  cases hreport : report a with
  | none => exact hother after hafter
  | some f =>
    rw [List.nil_append, List.filter_cons_of_pos (by simp [h a f hreport]), hother after hafter]
    rfl

/-- The texts of scripts of an inventory. -/
def textsOf (i : Inventory) (texts : List String → Option (List Char)) : Contents :=
  i.files.filterMap fun path => (texts path).map fun text => (path, text)

/-- The text of a script, if it can be read and is not too long. -/
def readShort? (disk : Disk) (root : Path) (limit : Int) (path : List String) :
    Option (List Char) :=
  (disk.readLenient? (Path.below root path)).filter fun text => text.length ≤ limit

/-- The texts that an analysis reads. -/
theorem contents_eq_textsOf (disk : Disk) (root : Path) (i : Inventory) (limit : Int) :
    contents disk root i limit = textsOf i (readShort? disk root limit) := by
  refine List.filterMap_congr fun path _ => ?_
  rw [readShort?]
  cases disk.readLenient? (Path.below root path) with
  | none => rfl
  | some text => by_cases h : text.length ≤ limit <;> simp [Option.filter_some, h]

/-- What a script is reported as. -/
def barrelBloat? (threshold : Nat) (path : List String) (text : List Char) : Option Finding :=
  if isIndex path ∧ threshold < reexports text
  then some (barrelBloat threshold (reexports text) (Path.joined path)) else none

theorem barrelBloats_textsOf (i : Inventory) (texts : List String → Option (List Char))
    (threshold : Nat) : barrelBloats (textsOf i texts) threshold
      = i.files.filterMap fun path => (texts path).bind (barrelBloat? threshold path) := by
  rw [barrelBloats, textsOf, List.filterMap_filterMap]
  refine List.filterMap_congr fun path _ => ?_
  cases texts path with
  | none => rfl
  | some text =>
    cases hindex : isIndex path <;> simp [barrelBloat?, hindex]

theorem severity_barrelBloat (threshold count : Nat) (file : String) :
    (barrelBloat threshold count file).severity = .critical ↔ 2 * threshold < count := by
  show severityOf count threshold = .critical ↔ _
  unfold severityOf
  split
  · simp only [true_iff]
    omega
  · simp only [reduceCtorEq, false_iff]
    omega

/-- A script whose text is made of statements is reported if it is an index file with more
re-exports than the threshold, once and with their number, and in the order of the inventory. -/
theorem barrelBloats_moduleText {disk : Disk} (hdisk : disk.WellFormed) (root : Path)
    (skip : NameSet) (texts : List String → Option (List Char)) (threshold : Nat) :
    (∀ ss, reexports (Statement.moduleText ss) = ss.countP Statement.isReexport)
    ∧ ((barrelBloats (textsOf (Inventory.collect disk root skip) texts) threshold).map
        (·.paths)).Sublist ((Inventory.collect disk root skip).files.map fun p => [Path.joined p])
    ∧ ∀ p ∈ (Inventory.collect disk root skip).files, ∀ ss,
        texts p = some (Statement.moduleText ss) →
        (barrelBloats (textsOf (Inventory.collect disk root skip) texts) threshold).filter
            (fun f => f.paths = [Path.joined p])
          = (if isIndex p ∧ threshold < ss.countP Statement.isReexport
            then [barrelBloat threshold (ss.countP Statement.isReexport) (Path.joined p)] else [])
        ∧ ((barrelBloat threshold (ss.countP Statement.isReexport) (Path.joined p)).severity
            = .critical ↔ 2 * threshold < ss.countP Statement.isReexport) := by
  have hon : ∀ p f, ((texts p).bind (barrelBloat? threshold p)) = some f →
      f.kind = .barrelBloat ∧ f.domain = domain ∧ f.paths = [Path.joined p] := by
    intro p f hf
    obtain ⟨text, _, hf⟩ := Option.bind_eq_some_iff.mp hf
    obtain ⟨_, hf⟩ := Option.ite_none_right_eq_some.mp hf
    cases hf
    exact ⟨rfl, rfl, rfl⟩
  have hnodup : ((Inventory.collect disk root skip).files.map Path.joined).Nodup :=
    Path.nodup_map_joined (Inventory.nodup_files hdisk root skip) fun p hp =>
      Inventory.proper_of_mem_files hdisk.named hp
  rw [barrelBloats_textsOf]
  refine ⟨Statement.reexports_moduleText, ?_, fun p hp ss hss => ⟨?_, severity_barrelBloat ..⟩⟩
  · have hreports : ReportsOn .barrelBloat
        ((Inventory.collect disk root skip).files.map Path.joined) _ := reportsOn_filterMap hon
    have hpaths := hreports.paths
    rwa [List.map_map] at hpaths
  · rw [filter_paths_filterMap (fun p f hf => (hon p f hf).2.2) hnodup hp, hss, Option.bind_some,
      barrelBloat?, Statement.reexports_moduleText]
    split <;> rfl

/-- An index file that exports two others again, and names of its own over two lines. -/
def barrelModule : List Statement :=
  [.exportFrom .everything ⟨⟨"./a".toList, quiet_of_not_infix (by decide)⟩, '"', by decide⟩,
    .exportNames ⟨⟨" reexport,\n  b ".toList, by decide⟩, by decide⟩,
    .exportFrom (.names ⟨⟨"\n  c,\n".toList, by decide⟩, by decide⟩)
      ⟨⟨"pkg".toList, by decide⟩, '\'', by decide⟩,
    .importOnly ⟨⟨"./style.css".toList, by decide⟩, '`', by decide⟩]

def barrelDisk : Disk where
  tree := .directory [("r", .directory [("src", .directory [
    ("index.ts", .file (Utf8.encode (Statement.moduleText barrelModule)))])])]

theorem barrelBloats_moduleText_barrel : barrelDisk.WellFormed
    ∧ (barrelBloats (contents barrelDisk ⟨true, ["r"]⟩
        (Inventory.collect barrelDisk ⟨true, ["r"]⟩ []) 500000) 1).filter
          (fun f => f.paths = ["src/index.ts"]) = [barrelBloat 1 2 "src/index.ts"]
    ∧ (barrelBloat 1 2 "src/index.ts").severity ≠ .critical := by
  have hdisk : barrelDisk.WellFormed := by decide +kernel
  have hfile : ["src", "index.ts"] ∈ (Inventory.collect barrelDisk ⟨true, ["r"]⟩ []).files := by
    decide +kernel
  have htext : readShort? barrelDisk ⟨true, ["r"]⟩ 500000 ["src", "index.ts"]
      = some (Statement.moduleText barrelModule) := by
    decide +kernel
  obtain ⟨hfound, hsevere⟩ := (barrelBloats_moduleText hdisk ⟨true, ["r"]⟩ []
    (readShort? barrelDisk ⟨true, ["r"]⟩ 500000) 1).2.2 _ hfile barrelModule htext
  rw [contents_eq_textsOf]
  exact ⟨hdisk, hfound, fun hcritical => absurd (hsevere.mp hcritical) (by decide)⟩

end RepoSurvey.Organization
