import Shading.Program.Listing
import Shading.Text.Invisible

/-!
# Quoted text

Texts in double quotes, as they stand in diagnostics.

Main definitions:

- `quotedText` puts a text in quotes.
-/

namespace Shading

/-- A character inside quotes: line breaks, tabs, quotes and backslashes are escaped, and
so is everything that shows nothing by itself. -/
def quotedChar (c : Char) : List Char :=
  if c = '\x00' then ['\\', '0']
  else if c = '\t' then ['\\', 't']
  else if c = '\r' then ['\\', 'r']
  else if c = '\n' then ['\\', 'n']
  else if c = '"' ∨ c = '\\' then ['\\', c]
  else if isInvisible c then ("\\u\x7b" ++ hexText 1 c.toNat ++ "\x7d").toList
  else [c]

/-- A text in quotes. -/
def quotedText (s : String) : String :=
  "\"" ++ String.ofList (s.toList.flatMap quotedChar) ++ "\""

end Shading
