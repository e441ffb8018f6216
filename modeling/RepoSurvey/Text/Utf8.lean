/-!
# UTF-8

* `Utf8.decode` reads bytes as a list of characters, with `none` for every maximal ill-formed
  stretch;
* `Utf8.strict` accepts well-formed bytes only;
* `Utf8.lenient` puts U+FFFD for each ill-formed stretch;
* `lenient_eq_of_strict` says that the two readings agree where the first is defined.
-/

namespace RepoSurvey.Utf8

/-- Between bytes: either no character is begun, or one owes `owed` more bytes, of which the
next lies between `low` and `high`. -/
inductive State
  | start
  | begun (owed low high bits : Nat)
  deriving DecidableEq, Repr

/-- The first byte of a character. -/
def firstByte (b : Nat) : List (Option Char) × State :=
  if b < 0x80 then ([some (Char.ofNat b)], .start)
  else if 0xC2 ≤ b ∧ b ≤ 0xDF then ([], .begun 1 0x80 0xBF (b - 0xC0))
  else if b = 0xE0 then ([], .begun 2 0xA0 0xBF 0)
  else if b = 0xED then ([], .begun 2 0x80 0x9F 0xD)
  else if 0xE1 ≤ b ∧ b ≤ 0xEF then ([], .begun 2 0x80 0xBF (b - 0xE0))
  else if b = 0xF0 then ([], .begun 3 0x90 0xBF 0)
  else if 0xF1 ≤ b ∧ b ≤ 0xF3 then ([], .begun 3 0x80 0xBF (b - 0xF0))
  else if b = 0xF4 then ([], .begun 3 0x80 0x8F 4)
  else ([none], .start)

/-- One byte: what is read by it, and the state after it. A byte that cannot continue the
character begun ends an ill-formed stretch and is read anew. -/
def step : State → Nat → List (Option Char) × State
  | .start, b => firstByte b
  | .begun owed low high bits, b =>
    if low ≤ b ∧ b ≤ high then
      let bits := bits * 64 + (b - 0x80)
      if owed ≤ 1 then ([some (Char.ofNat bits)], .start)
      else ([], .begun (owed - 1) 0x80 0xBF bits)
    else
      let (read, state) := firstByte b
      (none :: read, state)

/-- What the end of the bytes adds. -/
def finish : State → List (Option Char)
  | .start => []
  | .begun .. => [none]

/-- The characters read, last first, and the state after the bytes. -/
def scan (bytes : List UInt8) : List (Option Char) × State :=
  bytes.foldl
    (fun (read, state) b =>
      let (more, next) := step state b.toNat
      (more.reverse ++ read, next))
    ([], .start)

def decode (bytes : List UInt8) : List (Option Char) :=
  let (read, state) := scan bytes
  (finish state ++ read).reverse

def strict (bytes : List UInt8) : Option (List Char) :=
  let read := decode bytes
  if read.all Option.isSome then some (read.filterMap id) else none

def lenient (bytes : List UInt8) : List Char :=
  (decode bytes).map (·.getD '\ufffd')

theorem lenient_eq_of_strict {bytes : List UInt8} {text : List Char}
    (h : strict bytes = some text) : lenient bytes = text := by
  simp only [strict] at h
  split at h
  · rename_i wellFormed
    cases h
    unfold lenient
    generalize decode bytes = read at wellFormed
    induction read with
    | nil => rfl
    | cons c read ih =>
      cases c with
      | none => simp at wellFormed
      | some c => simp_all
  · cases h

/-- The bytes of a text. -/
def encode (text : List Char) : List UInt8 := (String.ofList text).toUTF8.toList

end RepoSurvey.Utf8
