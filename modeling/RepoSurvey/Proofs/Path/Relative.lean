import RepoSurvey.Proofs.Path.Segments

/-!
# Relative paths

From a directory one gets to a place by leaving, one by one, the directories that do not lead to
both, and going down to the place from there.

* `Path.reduce`: what normalizing does with one segment;
* `Path.normalize_detour`: to go into a directory and out of it again changes nothing;
* `Path.way`: how many directories to leave, and the names to go down by;
* `Path.normalize_way`: the way from a directory to a place ends at the place;
* `Path.segments_ofText_slash`: a text is read in two parts, before a slash and behind it;
* `Path.wayText`: the way written down, and `Path.ofText_wayText`, how it is read.
-/

namespace RepoSurvey.Path

/-! ## Normalizing -/

/-- What normalizing does with one segment. The segments kept so far are listed from the last. -/
def reduce (absolute : Bool) (kept : List String) (s : String) : List String :=
  if s = ".." then
    match kept with
    | [] => if absolute then [] else [".."]
    | top :: rest => if top = ".." then ".." :: top :: rest else rest
  else s :: kept

theorem normalize_eq (absolute : Bool) (segments : List String) :
    normalize ⟨absolute, segments⟩ = ⟨absolute, (segments.foldl (reduce absolute) []).reverse⟩ :=
  rfl

variable {absolute : Bool}

@[simp]
theorem reduce_name {s : String} (h : s ≠ "..") (kept : List String) :
    reduce absolute kept s = s :: kept :=
  if_neg h

@[simp]
theorem reduce_dots {top : String} (h : top ≠ "..") (kept : List String) :
    reduce absolute (top :: kept) ".." = kept := by
  show (if top = ".." then ".." :: top :: kept else kept) = kept
  exact if_neg h

theorem foldl_reduce_names {names : List String} (h : ∀ s ∈ names, s ≠ "..") (kept : List String) :
    names.foldl (reduce absolute) kept = names.reverse ++ kept := by
  induction names generalizing kept with
  | nil => rfl
  | cons s names ih =>
    obtain ⟨hs, hnames⟩ := List.forall_mem_cons.mp h
    rw [List.foldl_cons, reduce_name hs, ih hnames, List.reverse_cons, List.append_assoc]
    rfl

theorem foldl_reduce_dots {left : List String} (h : ∀ s ∈ left, s ≠ "..") (kept : List String) :
    (List.replicate left.length "..").foldl (reduce absolute) (left ++ kept) = kept := by
  induction left with
  | nil => rfl
  | cons top left ih =>
    obtain ⟨htop, hleft⟩ := List.forall_mem_cons.mp h
    rw [List.length_cons, List.replicate_succ, List.foldl_cons, List.cons_append, reduce_dots htop]
    exact ih hleft

/-- To go into a directory and out of it again changes nothing. -/
theorem normalize_detour {d : String} (h : d ≠ "..") (front back : List String) :
    normalize ⟨absolute, front ++ [d, ".."] ++ back⟩ = normalize ⟨absolute, front ++ back⟩ := by
  have hnothing (kept : List String) : [d, ".."].foldl (reduce absolute) kept = kept := by
    rw [List.foldl_cons, List.foldl_cons, List.foldl_nil, reduce_name h, reduce_dots h]
  rw [normalize_eq, normalize_eq, List.foldl_append, List.foldl_append, hnothing,
    List.foldl_append]

/-! ## The way from a directory to a place -/

/-- How many directories to leave on the way from a directory to a place, and the names to go down
by then. The directories that lead to both are not left. -/
def way : List String → List String → Nat × List String
  | d :: directory, s :: place =>
    if d = s then way directory place else (directory.length + 1, s :: place)
  | directory, place => (directory.length, place)

theorem way_cons (d : String) (directory place : List String) :
    way (d :: directory) (d :: place) = way directory place := by
  rw [way, if_pos rfl]

/-- What is left is the end of the directory, and what is gone down the end of the place. -/
theorem exists_way (directory place : List String) :
    ∃ shared left, directory = shared ++ left ∧ left.length = (way directory place).1
      ∧ place = shared ++ (way directory place).2 := by
  induction directory generalizing place with
  | nil =>
    refine ⟨[], [], rfl, ?_, ?_⟩ <;> cases place <;> rfl
  | cons d directory ih =>
    cases place with
    | nil => exact ⟨[], d :: directory, rfl, rfl, rfl⟩
    | cons s place =>
      by_cases hsame : d = s
      · subst hsame
        obtain ⟨shared, left, hdirectory, hleft, hplace⟩ := ih place
        rw [way_cons]
        refine ⟨d :: shared, left, ?_, hleft, ?_⟩
        · rw [List.cons_append, ← hdirectory]
        · rw [List.cons_append, ← hplace]
      · rw [way, if_neg hsame]
        exact ⟨[], d :: directory, rfl, rfl, rfl⟩

/-- The way from a directory to a place ends at the place. -/
theorem normalize_way {directory place : List String} (hdirectory : ∀ s ∈ directory, s ≠ "..")
    (hplace : ∀ s ∈ place, s ≠ "..") :
    normalize ⟨absolute, directory ++
        (List.replicate (way directory place).1 ".." ++ (way directory place).2)⟩
      = ⟨absolute, place⟩ := by
  obtain ⟨shared, left, hdir, hlength, hpl⟩ := exists_way directory place
  have hleft : ∀ s ∈ left.reverse, s ≠ ".." := fun s hs =>
    hdirectory s (hdir ▸ List.mem_append_right shared (List.mem_reverse.mp hs))
  have hdown : ∀ s ∈ (way directory place).2, s ≠ ".." := fun s hs =>
    hplace s (hpl ▸ List.mem_append_right shared hs)
  have hup : (List.replicate (way directory place).1 "..").foldl (reduce absolute)
      directory.reverse = shared.reverse := by
    rw [← hlength, ← List.length_reverse, hdir, List.reverse_append]
    exact foldl_reduce_dots hleft shared.reverse
  rw [normalize_eq, List.foldl_append, foldl_reduce_names hdirectory, List.append_nil,
    List.foldl_append, hup, foldl_reduce_names hdown, List.reverse_append, List.reverse_reverse,
    List.reverse_reverse, ← hpl]

/-! ## Reading a path in parts -/

theorem segments_ofText_slash (front back : String) :
    (ofText (front ++ "/" ++ back)).segments
      = (ofText front).segments ++ (ofText back).segments := by
  show (splitSlashes (front ++ "/" ++ back)).filter _ = _
  rw [splitSlashes_slash, List.filter_append]
  rfl

/-- What is behind a slash does not tell whether a text starts with one. -/
theorem absolute_ofText_slash (front back back' : String) :
    (ofText (front ++ "/" ++ back)).absolute = (ofText (front ++ "/" ++ back')).absolute := by
  have hstart (back : String) : (front ++ "/" ++ back).startsWith "/" = true
      ↔ ['/'] <+: front.toList ++ ['/'] := by
    rw [String.startsWith_string_iff]
    cases hfront : front.toList with
    | nil => simp [hfront]
    | cons c rest => simp [hfront]
  exact Bool.eq_iff_iff.mpr ((hstart back).trans (hstart back').symm)

@[simp]
theorem segments_ofText_empty : (ofText "").segments = [] := by decide +kernel

@[simp]
theorem segments_ofText_dot : (ofText ".").segments = [] := by decide +kernel

@[simp]
theorem segments_ofText_dots : (ofText "..").segments = [".."] := by decide +kernel

theorem segments_ofText_joined {names : List String} (h : ∀ s ∈ names, Name.Proper s) :
    (ofText (joined names)).segments = names := by
  cases names with
  | nil => exact segments_ofText_empty
  | cons s rest => exact congrArg segments (ofText_text_relative h)

theorem segments_ofText_name {name : String} (h : Name.Proper name) :
    (ofText name).segments = [name] := by
  have hjoined : joined [name] = name := by simp [joined]
  have hread := segments_ofText_joined (List.forall_mem_singleton.mpr h)
  rwa [hjoined] at hread

/-! ## The text of a way -/

/-- Two dots for each directory to leave, or one where none is left, and the names behind them. -/
def wayText (up : Nat) (down : List String) : String :=
  (if up = 0 then "./" else String.join (List.replicate up "../")) ++ joined down

theorem segments_ofText_up (up : Nat) (back : String) :
    (ofText (String.join (List.replicate up "../") ++ back)).segments
      = List.replicate up ".." ++ (ofText back).segments := by
  induction up with
  | zero => simp
  | succ up ih =>
    have hfirst : String.join (List.replicate (up + 1) "../") ++ back
        = ".." ++ "/" ++ (String.join (List.replicate up "../") ++ back) := by
      rw [List.replicate_succ, String.join_cons, String.append_assoc]
      rfl
    rw [hfirst, segments_ofText_slash, segments_ofText_dots, ih, List.replicate_succ]
    rfl

theorem ofText_eq_relative {text : String} {names : List String}
    (habsolute : (ofText text).absolute = false) (hsegments : (ofText text).segments = names) :
    ofText text = relative names := by
  rw [relative, ← habsolute, ← hsegments]

/-- The text of a way is read as the way. -/
theorem ofText_wayText (up : Nat) {down : List String} (h : ∀ s ∈ down, Name.Proper s) :
    ofText (wayText up down) = relative (List.replicate up ".." ++ down) := by
  have hread := segments_ofText_joined h
  cases up with
  | zero =>
    have habsolute : (ofText ("." ++ "/" ++ joined down)).absolute = false :=
      (absolute_ofText_slash "." (joined down) "").trans (by decide +kernel)
    refine ofText_eq_relative habsolute ?_
    show (ofText ("." ++ "/" ++ joined down)).segments = [] ++ down
    rw [segments_ofText_slash, segments_ofText_dot, hread]
  | succ up =>
    have habsolute : (ofText (wayText (up + 1) down)).absolute = false := by
      rw [wayText, if_neg (Nat.succ_ne_zero up), List.replicate_succ, String.join_cons,
        String.append_assoc]
      exact (absolute_ofText_slash ".." _ "").trans (by decide +kernel)
    refine ofText_eq_relative habsolute ?_
    rw [wayText, if_neg (Nat.succ_ne_zero up), segments_ofText_up, hread]

end RepoSurvey.Path
