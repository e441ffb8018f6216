import RepoSurvey.Proofs.Import.Statement

/-!
# Modules with a statement on each line

In a module whose lines are statements that end in semicolons, each pattern matches the statements
that it is meant for.

* `Import.Statement.eq_of_quoted`: a path that is quoted before any semicolon is the one of the
  statement;
* `Import.Statement.exists_lead`, `Import.Statement.kind_eq_of_mem_ends`: what a match can pass on
  the way to the path, and that it fits the form;
* `Import.Statement.covers_lead`: what is written before the path can be passed;
* `Import.Statement.mem_ends_pattern_iff`: so a pattern matches at the word of a statement exactly
  if it is meant for the form and the path is relative;
* `Import.Statement.findFrom_text`: the search goes through a statement;
* `Import.Statement.literals_moduleText`: the paths found in a module.
-/

namespace RepoSurvey.Import

open Pattern

namespace Statement

variable {s : Statement} {k : Kind} {cur e : Cursor} {more : List Char}

/-! ## The quoted path -/

/-- A relative path that is quoted in a statement, before any semicolon, is that of the statement:
behind the closing mark stand only a parenthesis and the semicolon. -/
theorem eq_of_quoted {lead path rest : List Char} {mark close : Char}
    (h : s.body ++ more = lead ++ mark :: (path ++ close :: rest)) (hmark : isMark mark = true)
    (hclose : isMark close = true) (hpath : isRelative path = true) (hquotable : Quotable path)
    (hsemicolon : ';' ∉ lead) :
    lead = s.form.lead ∧ mark = s.mark ∧ path = s.path ∧ close = s.mark
      ∧ rest = s.form.tail ++ more := by
  have hpaths : ∀ c ∈ path, isMark c = false := fun c hc => (hquotable c hc).1
  have hbody : s.body ++ more
      = s.form.lead ++ s.mark :: (s.path ++ s.mark :: (s.form.tail ++ more)) := by
    simp [body]
  rw [hbody] at h
  rcases eq_or_later_of_append_mark (fun c hc => (s.form.of_mem_lead c hc).1) hmark h with
    ⟨rfl, rfl, hafter⟩ | ⟨last, rfl, hafter⟩
  · rcases eq_or_later_of_append_mark (noMark_of_inline s.inline_path) hclose hafter.symm with
      ⟨rfl, rfl, rfl⟩ | ⟨last, rfl, _⟩
    · exact ⟨rfl, rfl, rfl, rfl, rfl⟩
    · have hno := hpaths s.mark (by simp)
      rw [s.isMark_mark] at hno
      cases hno
  · exfalso
    rcases eq_or_later_of_append_mark (noMark_of_inline s.inline_path) hmark hafter with
      ⟨rfl, rfl, htail⟩ | ⟨last, rfl, htail⟩
    · -- the closing mark
      obtain ⟨path, rfl⟩ := exists_cons_of_isRelative hpath
      rcases s.form.tail_cases with h | h <;> rw [h] at htail <;> simp at htail
    · -- a mark behind the semicolon
      obtain ⟨start, back, hsemi, hstart⟩ : ∃ start back, s.form.tail = start ++ ';' :: back
          ∧ ∀ c ∈ start, isMark c = false := by
        rcases s.form.tail_cases with h | h
        · exact ⟨[], ['\n'], h, by simp⟩
        · exact ⟨[')'], ['\n'], h, List.forall_mem_singleton.mpr (by decide)⟩
      rw [hsemi, List.append_assoc, List.cons_append] at htail
      rcases eq_or_later_of_append_mark hstart hmark htail with ⟨_, rfl, _⟩ | ⟨last, rfl, _⟩
      · exact absurd hmark (by decide)
      · exact hsemicolon (by simp)

/-! ## On the way to the path -/

/-- What is exported: everything, or names in braces. -/
inductive Exported : List Char → Prop
  | everything : Exported ['*']
  | names (list : NameList) : Exported list.text

theorem Exported.exists_cons {names : List Char} (h : Exported names) :
    ∃ c rest, names = c :: rest ∧ Text.isBlank c = false := by
  cases h with
  | everything => exact ⟨'*', [], rfl, by decide⟩
  | names list => exact ⟨'{', list.inner ++ ['}'], rfl, by decide⟩

theorem Exported.noSemicolon {names : List Char} (h : Exported names) : ';' ∉ names := by
  cases h with
  | everything => decide
  | names list => exact fun hmem => (of_isClauseChar (list.isClauseChar_of_mem _ hmem)).2.1 rfl

theorem exists_exported {f : Form} (h : f.kind = .exportFrom) : ∃ names, Exported names
    ∧ f.lead = "export".toList ++ ' ' :: (names ++ " from ".toList) := by
  cases f with
  | exportAll => exact ⟨['*'], .everything, rfl⟩
  | exportNames list => exact ⟨list.text, .names list, rfl⟩
  | importFrom | importOnly | importCall | requireCall => cases h

theorem mem_ends_exportedNames {names rest : List Char} (hnames : Exported names)
    (hrest : cur.rest = names ++ rest) (he : e ∈ ends exportedNames cur) :
    e = cur.after names rest := by
  cases hnames with
  | everything => exact (mem_ends_everything hrest).mp he
  | names list =>
    have hfree : '}' ∉ list.inner :=
      fun hmem => ne_brace_of_isListChar (list.isListChar_of_mem_inner _ hmem) rfl
    have hbraces : cur.rest = '{' :: (list.inner ++ '}' :: rest) := by
      rw [hrest, NameList.text]
      simp
    exact (mem_ends_braces hfree hbraces).mp he

/-- Up to the quoted path no semicolon is passed. -/
theorem exists_lead (hword : k.word = s.form.kind.word) (hrest : cur.rest = s.body ++ more)
    (he : e ∈ ends (seqs (literal k.word :: k.between)) cur) :
    ∃ lead rest, cur.rest = lead ++ rest ∧ e = cur.after lead rest ∧ ';' ∉ lead := by
  cases k with
  | fromStatement | importCall | requireCall =>
    obtain ⟨lead, rest, hlead, rfl, hall⟩ :=
      exists_after_avoiding (Kind.capturesNothing_opening _) he
    exact ⟨lead, rest, hlead, rfl, hall ';' (by decide)⟩
  | exportFrom =>
    -- braces could hold a semicolon, but those of the statement do not
    have hkind : s.form.kind = .exportFrom := by
      cases hkind : s.form.kind <;> rw [hkind] at hword <;> revert hword <;> decide
    obtain ⟨names, hnames, hlead⟩ := exists_exported hkind
    obtain ⟨c, after, hcons, hc⟩ := hnames.exists_cons
    have hexport : cur.rest = "export".toList ++ ' ' :: c :: (after ++ (" from ".toList
        ++ s.mark :: (s.path ++ s.mark :: (s.form.tail ++ more)))) := by
      rw [hrest, body, hlead, hcons]
      simp
    obtain ⟨first, hfirst, he⟩ := (mem_ends_seqs_append ["export", blanks1]
      [exportedNames, blanks1, "from", blanks1]).mp he
    obtain ⟨second, hsecond, he⟩ := mem_ends_seqs_cons.mp he
    obtain rfl := (mem_ends_wordBlank "export" hexport hc).mp hfirst
    rw [← List.cons_append, ← hcons] at hsecond
    obtain rfl := mem_ends_exportedNames hnames rfl hsecond
    obtain ⟨lead, rest, hlast, rfl, hall⟩ := exists_after_avoiding (by decide) he
    refine ⟨"export".toList ++ [' '] ++ names ++ lead, rest, ?_, ?_, ?_⟩
    · rw [Cursor.after_rest] at hlast
      rw [hexport, ← List.cons_append, ← hcons, hlast]
      simp
    · rw [Cursor.after_after, Cursor.after_after]
      simp
    · have hword : ';' ∉ "export".toList ++ [' '] := by decide
      rw [List.mem_append, List.mem_append]
      rintro ((hmem | hmem) | hmem)
      · exact hword hmem
      · exact hnames.noSemicolon hmem
      · exact hall ';' (by decide) hmem

theorem blank_of_mem_ends {word : String} {ps : List Pattern} {c : Char} {rest : List Char}
    (hrest : cur.rest = word.toList ++ c :: rest)
    (he : e ∈ ends (seqs (literal word :: blanks1 :: ps)) cur) : Text.isBlank c = true := by
  obtain ⟨first, hfirst, he⟩ := mem_ends_seqs_cons.mp he
  obtain ⟨second, hsecond, _⟩ := mem_ends_seqs_cons.mp he
  obtain ⟨left, hleft, rfl⟩ := mem_ends_literal.mp hfirst
  obtain ⟨gap, behind, hgap, hblank, hne, rfl⟩ := mem_ends_blanks1.mp hsecond
  rw [hrest] at hleft
  rw [Cursor.after_rest, ← List.append_cancel_left hleft] at hgap
  obtain ⟨d, gap, rfl⟩ := List.exists_cons_of_ne_nil hne
  obtain ⟨rfl, _⟩ := List.cons.inj hgap
  exact hblank c List.mem_cons_self

/-- Of the two patterns that start with `import` only one goes on as the statement does. -/
theorem kind_eq_of_mem_ends (hword : k.word = s.form.kind.word) (hrest : cur.rest = s.body ++ more)
    (he : e ∈ ends (seqs (literal k.word :: k.between)) cur) : k = s.form.kind := by
  have hbody : cur.rest = s.form.kind.word.toList ++ s.form.kind.gap :: (s.form.inner
      ++ s.mark :: (s.path ++ s.mark :: (s.form.tail ++ more))) := by
    rw [hrest, body, Form.lead]
    simp
  generalize hkind : s.form.kind = kind at hword hbody ⊢
  cases k with
  | fromStatement =>
    cases kind with
    | fromStatement => rfl
    | importCall => exact absurd (blank_of_mem_ends hbody he) (by decide)
    | requireCall | exportFrom => exact absurd hword (by decide)
  | importCall =>
    cases kind with
    | importCall => rfl
    | fromStatement =>
      -- the first parenthesis comes after the quotation mark, which is no blank
      obtain ⟨gap, behind, hgap, hblank⟩ := parenthesis_of_mem_ends hbody he
      have hinner : ∀ c ∈ ' ' :: s.form.inner, (c == '(') = false := by
        refine List.forall_mem_cons.mpr ⟨by decide, fun c hc => beq_eq_false_iff_ne.mpr ?_⟩
        exact (of_isClauseChar (s.form.isClauseChar_of_mem_inner c hc)).2.2
      rcases eq_or_later_of_append (p := (· == '(')) hinner (by decide) hgap with
        ⟨_, hmark, _⟩ | ⟨last, rfl, _⟩
      · have hno := s.isMark_mark
        rw [← hmark] at hno
        exact absurd hno (by decide)
      · have hno := hblank s.mark (by simp)
        rw [isBlank_of_isMark s.isMark_mark] at hno
        cases hno
    | requireCall | exportFrom => exact absurd hword (by decide)
  | requireCall => cases kind <;> first | rfl | exact absurd hword (by decide)
  | exportFrom => cases kind <;> first | rfl | exact absurd hword (by decide)

/-! ## Matches -/

/-- The part of the statement that the pattern for its form matches. -/
def matched (s : Statement) : List Char :=
  s.form.lead ++ s.mark :: (s.path ++ s.mark :: s.form.tailParts.1)

theorem body_eq (s : Statement) : s.body = s.matched ++ s.form.tailParts.2 := by
  rw [body, matched, Form.tail_eq]
  simp

theorem mem_ends_closing {f : Form} {rest : List Char} (hrest : cur.rest = f.tail ++ rest) :
    e ∈ ends (seqs f.kind.closing) cur ↔ e = cur.after f.tailParts.1 (f.tailParts.2 ++ rest) := by
  have hnothing : e ∈ ends (seqs []) cur ↔ e = cur.after [] (f.tail ++ rest) := by
    rw [← hrest, Cursor.after_nil]
    exact mem_ends_empty
  cases f with
  | requireCall name =>
    constructor
    · intro h
      obtain ⟨first, hfirst, h⟩ := mem_ends_seqs_cons.mp h
      obtain ⟨gap, left, hleft, hblank, rfl⟩ := mem_ends_blanks.mp hfirst
      obtain ⟨last, hlast, rfl⟩ := mem_ends_literal.mp h
      have hparenthesis : ')' :: (";\n".toList ++ rest) = gap ++ ')' :: last := by
        rw [Cursor.after_rest] at hlast
        rw [hlast] at hleft
        exact hrest.symm.trans hleft
      cases gap with
      | nil =>
        obtain ⟨_, rfl⟩ := List.cons.inj hparenthesis
        rw [Cursor.after_after]
        rfl
      | cons c gap =>
        obtain ⟨rfl, _⟩ := List.cons.inj hparenthesis
        exact absurd (hblank ')' List.mem_cons_self) (by decide)
    · rintro rfl
      have hblanks : blanks.Covers [] := covers_repeated (by simp) (Nat.zero_le 0)
      exact (hblanks.cons (covers_literal ")")) cur _ hrest
  | importFrom | importOnly | importCall | exportAll | exportNames => exact hnothing

theorem covers_lead (f : Form) : (seqs (literal f.kind.word :: f.kind.between)).Covers f.lead := by
  have hspace : blanks1.Covers [' '] := covers_repeated isBlank_of_mem_space (Nat.le_refl 1)
  have hnone : blanks.Covers [] := covers_repeated (by simp) (Nat.zero_le 0)
  have hfrom : (seqs [blanks1, "from", blanks1]).Covers ([' '] ++ ("from".toList ++ [' '])) :=
    hspace.cons ((covers_literal "from").cons hspace)
  have hcall : (seqs [blanks, "(", blanks]).Covers ([] ++ ("(".toList ++ [])) :=
    hnone.cons ((covers_literal "(").cons hnone)
  have hnames {names : List Char} (h : exportedNames.Covers names) :
      (seqs Kind.exportFrom.between).Covers ([' '] ++ (names ++ ([' '] ++ ("from".toList ++ [' '])))) :=
    hspace.cons (h.cons hfrom)
  apply (covers_literal f.kind.word).cons
  cases f with
  | importFrom clause =>
    have hclause : (Pattern.repeated (.noneOf ";") 0 none .shortest).Covers clause.text := by
      refine covers_repeated (fun c hc => ?_) (Nat.zero_le _)
      simpa [CharSet.noneOf] using (of_isClauseChar (clause.isClauseChar_of_mem c hc)).2.1
    exact hspace.cons (Covers.alt_left (hclause.cons hfrom))
  | importOnly => exact hspace.cons (Covers.alt_right covers_empty)
  | importCall | requireCall => exact hcall
  | exportAll => exact hnames (covers_literal "*").alt_left
  | exportNames list =>
    have hinner : (star (.noneOf "\x7d")).Covers list.inner := by
      refine covers_repeated (fun c hc => ?_) (Nat.zero_le _)
      simpa [CharSet.noneOf] using ne_brace_of_isListChar (list.isListChar_of_mem_inner c hc)
    exact hnames (Covers.alt_right
      ((covers_literal "\x7b").cons (hinner.cons (covers_literal "\x7d"))))

/-- Where a match of the statement ends, with its path captured. -/
def finish (s : Statement) (cur : Cursor) (more : List Char) : Cursor :=
  ((cur.after (s.form.lead ++ s.mark :: (s.path ++ [s.mark])) (s.form.tail ++ more)).capture
    (s.path ++ s.mark :: (s.form.tail ++ more)) s.path.length).after s.form.tailParts.1
      (s.form.tailParts.2 ++ more)

theorem body_ne_nil (s : Statement) : s.body ≠ [] := by simp [body]

/-- The pattern for the form matches at the word, if the path is relative, and no other one does. -/
theorem mem_ends_pattern_iff (hrest : cur.rest = s.body ++ more) : e ∈ ends k.pattern cur
    ↔ k = s.form.kind ∧ s.relative = true ∧ e = s.finish cur more := by
  have hbody : cur.rest
      = s.form.lead ++ s.mark :: (s.path ++ s.mark :: (s.form.tail ++ more)) := by
    rw [hrest, body]
    simp
  constructor
  · intro h
    have hstart := Kind.word_isPrefix_of_mem_ends h
    rw [hrest] at hstart
    obtain ⟨_, hword⟩ := eq_of_word s.text_eq s.body_ne_nil hstart
    obtain ⟨first, hfirst, mid, hmid, he⟩ := Kind.mem_ends_pattern.mp h
    obtain rfl := kind_eq_of_mem_ends hword hrest hfirst
    obtain ⟨lead, text, htext, rfl, hsemicolon⟩ := exists_lead hword hrest hfirst
    obtain ⟨mark, path, close, rest, hmark, hclose, hrelative, hquotable, hquoted, rfl⟩ :=
      mem_ends_quotedPath.mp hmid
    rw [Cursor.after_rest] at hquoted
    rw [hquoted, hrest] at htext
    obtain ⟨rfl, rfl, rfl, rfl, rfl⟩ :=
      eq_of_quoted htext hmark hclose hrelative hquotable hsemicolon
    refine ⟨rfl, hrelative, ?_⟩
    rw [(mem_ends_closing rfl).mp he, Cursor.after_after]
    rfl
  · rintro ⟨rfl, hrelative, rfl⟩
    refine Kind.mem_ends_pattern.mpr ⟨_, covers_lead s.form cur _ hbody, _,
      mem_ends_quotedPath.mpr ⟨s.mark, s.path, s.mark, s.form.tail ++ more, s.isMark_mark,
        s.isMark_mark, hrelative, ?_, rfl, rfl⟩, ?_⟩
    · exact fun c hc => ⟨(s.inline_path c hc).1, (s.inline_path c hc).2.2⟩
    · rw [mem_ends_closing rfl, Cursor.after_after]
      rfl

variable {b : Option Char} {o : Nat}

/-- The statement is found with this pattern. -/
def found (k : Kind) (s : Statement) : Bool := k == s.form.kind && s.relative

theorem matchAt?_body : k.pattern.matchAt? b o (s.body ++ more)
    = if s.found k then some ⟨o, o + s.matched.length, [s.path]⟩ else none := by
  have hends : ∀ e, e ∈ ends k.pattern ⟨b, s.body ++ more, o, []⟩
      ↔ s.found k = true ∧ e = s.finish ⟨b, s.body ++ more, o, []⟩ more := by
    intro e
    rw [mem_ends_pattern_iff rfl, found, Bool.and_eq_true, beq_iff_eq, and_assoc]
  have hmatch : (⟨o, (s.finish ⟨b, s.body ++ more, o, []⟩ more).offset,
      (s.finish ⟨b, s.body ++ more, o, []⟩ more).captured.reverse.map Capture.chars⟩ : Match)
        = ⟨o, o + s.matched.length, [s.path]⟩ := by
    simp [finish, matched, Cursor.capture, Capture.chars, Nat.add_assoc, Nat.add_comm 2]
  rw [matchAt?_eq_run]
  split
  · rename_i hfound
    refine run_eq_some_of_unique ⟨_, (hends _).mpr ⟨hfound, rfl⟩, congrArg some hmatch⟩ ?_
    intro e he m hm
    rw [((hends e).mp he).2] at hm
    exact (Option.some.inj hm).symm.trans hmatch
  · rename_i hfound
    rw [run_eq_findSome?, List.findSome?_eq_none_iff]
    exact fun e he => absurd ((hends e).mp he).1 hfound

/-- No pattern matches at another place of the statement. -/
theorem matchAt?_eq_none_of_ne {u v : List Char} (hsplit : s.text = u ++ v) (hv : v ≠ [])
    (hu : u ≠ s.form.front) : k.pattern.matchAt? b o (v ++ more) = none := by
  cases hm : k.pattern.matchAt? b o (v ++ more) with
  | none => rfl
  | some m =>
    obtain ⟨e, he, _⟩ := exists_of_matchAt? hm
    exact absurd (eq_of_word hsplit hv (Kind.word_isPrefix_of_mem_ends he)).1 hu

/-! ## The search -/

/-- The search goes through a statement, and finds it or does not. -/
theorem findFrom_text {earlier : List Match} : ∃ b' o' ms,
    ms.map Match.captures = (if s.found k then [[s.path]] else [])
      ∧ k.pattern.findFrom b o 0 earlier (s.text ++ more)
        = k.pattern.findFrom b' o' 0 (ms ++ earlier) more := by
  cases hfound : s.found k with
  | true =>
    have hbefore : ∀ u v b o, s.form.front = u ++ v → v ≠ [] →
        k.pattern.matchAt? b o (v ++ (s.body ++ more)) = none := by
      intro u v b o hsplit hv
      rw [← List.append_assoc]
      refine matchAt?_eq_none_of_ne (s := s) (u := u) ?_ (by simp [hv]) fun hu => hv ?_
      · rw [text_eq, hsplit, List.append_assoc]
      · rw [← hu] at hsplit
        simpa using hsplit
    have hbehind : ∀ u v b o, s.form.tailParts.2 = u ++ v → v ≠ [] →
        k.pattern.matchAt? b o (v ++ more) = none := by
      intro u v b o hsplit hv
      refine matchAt?_eq_none_of_ne (s := s) (u := s.form.front ++ (s.matched ++ u)) ?_ hv fun hu => ?_
      · rw [text_eq, body_eq, hsplit]
        simp only [List.append_assoc]
      · simp [matched] at hu
    have hmatch : ∀ b o, k.pattern.matchAt? b o (s.matched ++ (s.form.tailParts.2 ++ more))
        = some ⟨o, o + s.matched.length, [s.path]⟩ := by
      intro b o
      rw [← List.append_assoc, ← body_eq, matchAt?_body, hfound, if_pos rfl]
    have hstart : s.matched ≠ [] := by simp [matched]
    have hfront : k.pattern.findFrom b o 0 earlier (s.text ++ more)
        = k.pattern.findFrom (s.form.front.getLast?.or b) (o + s.form.front.length) 0 earlier
          (s.matched ++ (s.form.tailParts.2 ++ more)) := by
      rw [← List.append_assoc s.matched, ← body_eq, text_eq, List.append_assoc]
      exact findFrom_of_forall_none hbefore
    exact ⟨_, _, [_], rfl, hfront.trans ((findFrom_of_match hstart (hmatch _ _) rfl).trans
      (findFrom_of_forall_none hbehind))⟩
  | false =>
    refine ⟨_, _, [], rfl, findFrom_of_forall_none fun u v b o hsplit hv => ?_⟩
    by_cases hu : u = s.form.front
    · rw [hu, text_eq] at hsplit
      rw [← List.append_cancel_left hsplit, matchAt?_body, hfound, if_neg Bool.false_ne_true]
    · exact matchAt?_eq_none_of_ne hsplit hv hu

/-- The text of a module, line by line. -/
def moduleText (ss : List Statement) : List Char := ss.flatMap text

theorem captures_findFrom (k : Kind) (earlier : List Match) (ss : List Statement) :
    (k.pattern.findFrom b o 0 earlier (moduleText ss)).map Match.captures
      = earlier.reverse.map Match.captures ++ (ss.filter (found k)).map fun s => [s.path] := by
  induction ss generalizing b o earlier with
  | nil =>
    have hnone : k.pattern.matchAt? b o [] = none := by
      cases hm : k.pattern.matchAt? b o [] with
      | none => rfl
      | some m =>
        obtain ⟨e, he, _⟩ := exists_of_matchAt? hm
        have hstart := Kind.word_isPrefix_of_mem_ends he
        exact absurd (List.prefix_nil.mp hstart) (by cases k <;> decide)
    simp [moduleText, findFrom, hnone]
  | cons s after ih =>
    obtain ⟨b', o', ms, hms, hnext⟩ : ∃ b' o' ms,
        ms.map Match.captures = (if s.found k then [[s.path]] else [])
          ∧ k.pattern.findFrom b o 0 earlier (s.text ++ moduleText after)
            = k.pattern.findFrom b' o' 0 (ms ++ earlier) (moduleText after) := findFrom_text
    have hmodule : moduleText (s :: after) = s.text ++ moduleText after := rfl
    rw [hmodule, hnext, ih, List.reverse_append, List.map_append, List.map_reverse (l := ms), hms,
      List.filter_cons]
    cases s.found k <;> simp

/-- The paths of a module are found pattern by pattern: of the statements of the forms that the
pattern is meant for exactly those that name a relative path, once each and in their order. -/
theorem literals_moduleText (ss : List Statement) : literals (moduleText ss)
    = Kind.all.flatMap fun k => (ss.filter (found k)).map fun s => String.ofList s.path := by
  have hfind (k : Kind) : ((k.pattern.findAll (moduleText ss)).map fun m => m.text 0)
      = (ss.filter (found k)).map fun s => String.ofList s.path := by
    have hcaptures : (k.pattern.findAll (moduleText ss)).map Match.captures
        = (ss.filter (found k)).map fun s => [s.path] := captures_findFrom k [] ss
    have htext := congrArg (List.map fun cs : List (List Char) => String.ofList ((cs[0]?).getD []))
      hcaptures
    rw [List.map_map, List.map_map] at htext
    exact htext
  rw [literals, Kind.patterns_eq, List.flatMap_map]
  exact congrArg (fun f => Kind.all.flatMap f) (funext hfind)

example :
    let a : Identifier := ⟨"a".toList, rfl, rfl, by decide⟩
    let b : Identifier := ⟨"from".toList, rfl, rfl, by decide⟩
    let text := moduleText [
      ⟨.requireCall a, '"', "./c".toList, by decide, by decide, by decide, by decide⟩,
      ⟨.importFrom (.both a 1 ⟨1, [⟨0, b, 1⟩]⟩), '`', "../d e".toList, by decide, by decide,
        by decide, by decide⟩]
    String.ofList text
        = "const a = require(\"./c\");\nimport a, \x7b from \x7d from `../d e`;\n"
      ∧ literals text = ["../d e", "./c"] := by
  decide +kernel

end Statement

end RepoSurvey.Import
