import RepoSurvey.Json.Basic
import RepoSurvey.Number.Reading
import RepoSurvey.Validation.Failure

/-!
# Checked values

* `Checked` is a value or the failures that stand in its way; the parts of a record are checked
  independently, and their failures are collected in order;
* `Checked.integer`, `Checked.text` and so on check one value, with the conversions that are
  allowed: a whole number may be given as a number without a fraction, as a truth value or as a
  text, a truth value as zero, one or a word;
* `FieldName` finds a field under either of its two names.
-/

namespace RepoSurvey

inductive Checked (α : Type)
  | valid (a : α)
  | invalid (failures : List Failure)
  deriving DecidableEq, Repr

namespace Checked

variable {α β : Type}

def fail (cause : Failure.Cause) : Checked α := .invalid [⟨[], cause⟩]

def map (f : α → β) : Checked α → Checked β
  | .valid a => .valid (f a)
  | .invalid failures => .invalid failures

/-- Both parts are checked, and the failures of both are kept. -/
def ap (f : Checked (α → β)) (x : Checked α) : Checked β :=
  match f, x with
  | .valid f, .valid a => .valid (f a)
  | .valid _, .invalid failures => .invalid failures
  | .invalid failures, .valid _ => .invalid failures
  | .invalid first, .invalid second => .invalid (first ++ second)

instance : Functor Checked := ⟨map, fun a => map fun _ => a⟩

instance : Applicative Checked where
  pure := .valid
  seq f x := ap f (x ())

/-- A check of a whole that makes sense only once its parts are valid. -/
def andThen (x : Checked α) (f : α → Checked β) : Checked β :=
  match x with
  | .valid a => f a
  | .invalid failures => .invalid failures

/-- The failures as seen from one step further out. -/
def under (key : Key) : Checked α → Checked α
  | .valid a => .valid a
  | .invalid failures => .invalid (failures.map fun f => { f with location := key :: f.location })

def toExcept : Checked α → Except (List Failure) α
  | .valid a => .ok a
  | .invalid failures => .error failures

/-- Check the items of a list, counting from `index`. -/
def itemsFrom (check : Json → Checked α) (index : Nat) : List Json → Checked (List α)
  | [] => .valid []
  | j :: rest =>
    ((·  :: ·) <$> (check j).under (.item index)) <*> itemsFrom check (index + 1) rest

/-! ## Checks of one value -/

def text : Json → Checked String
  | .str s => .valid s
  | _ => fail .notText

def nonEmptyText (j : Json) : Checked String :=
  (text j).andThen fun s => if s.isEmpty then fail .emptyText else .valid s

/-- Does a whole number fit into 64 bits with a sign, the least of them left out? -/
def fitsWord (n : Int) : Bool := n.natAbs < Nat.pow 2 63

def wholeReal (x : Binary64) : Checked Int :=
  match x.toInt? with
  | some n => if fitsWord n then .valid n else fail .integerSize
  | none => fail (if x.isFinite then .fractional else .notFinite)

def integer : Json → Checked Int
  | .int n => .valid n
  | .bool b => .valid (if b then 1 else 0)
  | .float x => wholeReal x
  | .str s =>
    match Number.lenientInt s.toList with
    | .ok n => .valid n
    | .error .malformed => fail .integerText
    | .error .tooLong => fail .integerSize
  | _ => fail .notInteger

/-- A whole number that is not below `least`. -/
def integerFrom (least : Int) (j : Json) : Checked Int :=
  (integer j).andThen fun n => if n < least then fail (.belowLeast least) else .valid n

/-- A whole number as one of the 64-bit format, if it is within its range. -/
def realOfInt (n : Int) : Checked Binary64 :=
  let x := Binary64.ofInt n
  if x.isFinite then .valid x else fail .notNumber

def real : Json → Checked Binary64
  | .float x => .valid x
  | .int n => realOfInt n
  | .bool b => .valid (.ofInt (if b then 1 else 0))
  | .str s =>
    match Number.lenientReal? s.toList with
    | some x => .valid x
    | none => fail .numberText
  | _ => fail .notNumber

/-- A number between zero and one. -/
def unitReal (j : Json) : Checked Binary64 :=
  (real j).andThen fun x =>
    if !x.atMostOne then fail .aboveOne
    else if !x.atLeastZero then fail (.belowLeast 0)
    else .valid x

def falseWords : List String := ["0", "off", "f", "false", "n", "no"]

def trueWords : List String := ["1", "on", "t", "true", "y", "yes"]

/-- Zero and one stand for truth values. A number that is too large is of a wrong kind. -/
def truthOfInt (inRange : Int → Bool) (n : Int) : Checked Bool :=
  if n = 0 then .valid false
  else if n = 1 then .valid true
  else fail (if inRange n then .booleanText else .notBoolean)

def boolean : Json → Checked Bool
  | .bool b => .valid b
  | .int n => truthOfInt (fun n => fitsWord n || n == -(Nat.pow 2 63 : Nat)) n
  | .float x =>
    match x.toInt? with
    | some n => truthOfInt fitsWord n
    | none => fail .notBoolean
  | .str s =>
    let word := String.ofList (s.toList.map Char.toLower)
    if falseWords.contains word then .valid false
    else if trueWords.contains word then .valid true
    else fail .booleanText
  | _ => fail .notBoolean

def listOf (check : Json → Checked α) : Json → Checked (List α)
  | .arr items => itemsFrom check 0 items
  | _ => fail .notList

def setOf (check : Json → Checked α) : Json → Checked (List α)
  | .arr items => itemsFrom check 0 items
  | _ => fail .notSet

def entries (check : Json → Checked α) : List (String × Json) → Checked (Table α)
  | [] => .valid []
  | (name, j) :: rest =>
    ((fun a t => (name, a) :: t) <$> (check j).under (.field name)) <*> entries check rest

def tableOf (check : Json → Checked α) : Json → Checked (Table α)
  | .obj members => entries check members
  | _ => fail .notTable

def anyTable : Json → Checked (Table Json)
  | .obj members => .valid members
  | _ => fail .notTable

/-- Nothing, or a value. -/
def orNull (check : Json → Checked α) : Json → Checked (Option α)
  | .null => .valid none
  | j => (check j).map some

/-- One of finitely many words. -/
def oneOf (members : List String) (find? : String → Option α) (j : Json) : Checked α :=
  match j.str?.bind find? with
  | some a => .valid a
  | none => fail (.notMember members)

/-- The fields of a record called `name`. -/
def record (name : String) (check : Table Json → Checked α) : Json → Checked α
  | .obj members => check members
  | _ => fail (.notRecord name)

end Checked

/-! ## Fields -/

/-- A field goes by the name it has in the written form and by a plain one; the first wins. -/
structure FieldName where
  written : String
  plain : String
  deriving DecidableEq, Repr

namespace FieldName

variable {α : Type}

/-- A field with a single name. -/
def same (name : String) : FieldName := ⟨name, name⟩

def find? (f : FieldName) (members : Table Json) : Option (String × Json) :=
  match members.get? f.written with
  | some j => some (f.written, j)
  | none => (members.get? f.plain).map fun j => (f.plain, j)

def required (f : FieldName) (check : Json → Checked α) (members : Table Json) : Checked α :=
  match f.find? members with
  | some (name, j) => (check j).under (.field name)
  | none => .invalid [⟨[.field f.written], .missing⟩]

def orElse (f : FieldName) (default : α) (check : Json → Checked α) (members : Table Json) :
    Checked α :=
  match f.find? members with
  | some (name, j) => (check j).under (.field name)
  | none => .valid default

end FieldName

end RepoSurvey
