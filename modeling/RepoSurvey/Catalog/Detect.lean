import RepoSurvey.Catalog.Rules
import RepoSurvey.Report.Detection
import RepoSurvey.Text.Lines

/-!
# Detecting

A file is taken as a list of lines. Of every pattern of every rule for the file the first line
that matches is reported, with some lines around it.

* `Catalog.detect`: the detections of a text;
* `firstLine?_eq_some`: the line reported is the first that matches.
-/

namespace RepoSurvey.Catalog

/-- The first line that a pattern matches, counted from one. -/
def firstLine? (p : Pattern) (lines : List (List Char)) : Option Nat :=
  (lines.findIdx? p.occursIn).map (· + 1)

/-- What one pattern of a rule gives on the lines of a file. -/
def detectPattern (file : String) (lines : List (List Char)) (radius : Int) (r : Rule)
    (p : Pattern) : Except (List Failure) (List Detection) :=
  match firstLine? p lines with
  | none => .ok []
  | some line => do
    let range ← (LineRange.around line lines.length radius).toExcept
    let detection ← (Detection.make? file range r.id r.confidence r.domain).toExcept
    return [detection]

def detectRule (file : String) (lines : List (List Char)) (radius : Int) (r : Rule) :
    Except (List Failure) (List Detection) := do
  let found ← r.code.mapM (detectPattern file lines radius r)
  return found.flatten

/-- The detections of a text; one that is longer than `limit` has none. -/
def detect (rules : List Rule) (file : String) (text : List Char) (radius limit : Int) :
    Except (List Failure) (List Detection) :=
  if text.length > limit then .ok []
  else do
    let lines := Text.lines text
    let found ← (applicable rules (Path.ofText file)).mapM (detectRule file lines radius)
    return found.flatten

theorem firstLine?_eq_some {p : Pattern} {lines : List (List Char)} {k : Nat}
    (h : firstLine? p lines = some k) :
    ∃ line, lines[k - 1]? = some line ∧ p.occursIn line = true
      ∧ ∀ i < k - 1, ∀ l, lines[i]? = some l → p.occursIn l = false := by
  obtain ⟨i, hi, rfl⟩ := Option.map_eq_some_iff.mp h
  obtain ⟨bound, holds, before⟩ := List.findIdx?_eq_some_iff_getElem.mp hi
  refine ⟨lines[i], by simp, holds, ?_⟩
  intro j hj l hl
  have hj' : j < i := by omega
  have := before j hj'
  rw [List.getElem?_eq_getElem (by omega)] at hl
  cases hl
  simpa using this

end RepoSurvey.Catalog
