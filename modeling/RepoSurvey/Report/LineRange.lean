import RepoSurvey.Validation.Checked

/-!
# Ranges of lines

Lines are counted from one, and both ends belong to the range.

* `LineRange.make?` builds a range or tells what is wrong with its ends;
* `LineRange.around` pads a line on both sides within a file;
* `make?_valid`: ends in order are accepted.
-/

namespace RepoSurvey

structure LineRange where
  start : Int
  stop : Int
  one_le : 1 ≤ start
  ordered : start ≤ stop
  deriving DecidableEq, Repr

namespace LineRange

def startName : FieldName := .same "start"

def stopName : FieldName := .same "end"

/-- A range from two ends that are at least one. -/
def ofEnds (start stop : Int) : Checked LineRange :=
  if h : 1 ≤ start ∧ start ≤ stop then .valid ⟨start, stop, h.1, h.2⟩
  else Checked.fail (.endBeforeStart start stop)

/-- A range from its two ends, with a failure for each end that is not valid and, if both are,
for their order. -/
def make? (start stop : Int) : Checked LineRange :=
  let ends : Checked (Int × Int) :=
    Prod.mk <$> (Checked.integerFrom 1 (.int start)).under (.field "start")
      <*> (Checked.integerFrom 1 (.int stop)).under (.field "end")
  ends.andThen fun (start, stop) => ofEnds start stop

def check (j : Json) : Checked LineRange :=
  Checked.record "LineRange" (fun members =>
    let ends : Checked (Int × Int) :=
      Prod.mk <$> startName.required (Checked.integerFrom 1) members
        <*> stopName.required (Checked.integerFrom 1) members
    ends.andThen fun (start, stop) => ofEnds start stop) j

def toJson (r : LineRange) : Json := .obj [("start", .int r.start), ("end", .int r.stop)]

/-- A line with `radius` lines on each side, as far as the file reaches. -/
def around (line count radius : Int) : Checked LineRange :=
  make? (max 1 (line - radius)) (min (max count line) (line + radius))

theorem make?_valid {start stop : Int} (h₁ : 1 ≤ start) (h₂ : start ≤ stop) :
    make? start stop = .valid ⟨start, stop, h₁, h₂⟩ := by
  have hs : ¬ start < 1 := by omega
  have he : ¬ stop < 1 := by omega
  simp [make?, Checked.integerFrom, Checked.integer, Checked.andThen, hs, he, Checked.under,
    Functor.map, Seq.seq, Checked.map, Checked.ap, ofEnds, h₁, h₂]

end LineRange

end RepoSurvey
