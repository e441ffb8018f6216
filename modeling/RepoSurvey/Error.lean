import RepoSurvey.Json.Parser
import RepoSurvey.Text.Quoted
import RepoSurvey.Validation.Failure

/-!
# What can stop a survey

A manifest that writes a whole number with too many digits or that nests too deeply, a path that
cannot be looked up, an import that leads to a place without a name, and values that a record
refuses.
-/

namespace RepoSurvey

inductive SurveyError
  | tooManyDigits (count : Nat)
  /-- The stack is used up. -/
  | tooDeep (task : Nesting)
  /-- The path of a repository holds a character with code zero. -/
  | nullByte
  /-- The path of a repository leads to a link that leads back to itself. -/
  | linkLoop (path : String)
  | permissionDenied
  | nameTooLong
  /-- An import leads to the root of the file system, which has no name to add a suffix to. -/
  | namelessTarget
  /-- A cycle without members was to be reported. -/
  | emptyCycle
  | invalid (failures : List Failure)
  deriving DecidableEq, Repr

namespace SurveyError

def message : SurveyError → String
  | .tooManyDigits count =>
    s!"Exceeds the limit ({digitLimit} digits) for integer string conversion: value has {count} digits; use sys.set_int_max_str_digits() to increase the limit"
  | .tooDeep task => "maximum recursion depth exceeded" ++ task.text
  | .nullByte => "embedded null byte"
  | .linkLoop path => "Symlink loop from " ++ String.ofList (Text.quoted path.toList)
  | .permissionDenied => "Permission denied"
  | .nameTooLong => "File name too long"
  | .namelessTarget => "PosixPath('/') has an empty name"
  | .emptyCycle => "list index out of range"
  | .invalid failures => Failure.textOfAll failures

end SurveyError

end RepoSurvey
