import RepoSurvey.Text.Printable
import RepoSurvey.Text.Digit

/-!
# Quoted text

A text as it is shown inside a message: between quotes, with everything that cannot be printed
escaped. Single quotes are used unless the text has a single quote and no double quote.
-/

namespace RepoSurvey.Text

/-- One character between the quotes `quote`. -/
def escapeWithin (quote c : Char) : List Char :=
  if c = quote ∨ c = '\\' then ['\\', c]
  else if c = '\n' then ['\\', 'n']
  else if c = '\r' then ['\\', 'r']
  else if c = '\t' then ['\\', 't']
  else if isPrintable c then [c]
  else if c.toNat < 0x100 then '\\' :: 'x' :: hexDigits 2 c.toNat
  else if c.toNat < 0x10000 then '\\' :: 'u' :: hexDigits 4 c.toNat
  else '\\' :: 'U' :: hexDigits 8 c.toNat

/-- The quotes a text is put between. -/
def quoteFor (text : List Char) : Char :=
  if text.contains '\'' && !text.contains '"' then '"' else '\''

def quoted (text : List Char) : List Char :=
  let quote := quoteFor text
  quote :: (text.flatMap (escapeWithin quote) ++ [quote])

end RepoSurvey.Text
