import Shading.Json.Parser

/-!
# Parts of JSON text as they are written

The members of an object with the texts of their values, for documents that hold other
documents: an inner document is handed on as it is written, with its own spelling of
numbers and its own order of members.

Main definitions:

- `Json.spanValue` splits the text of a value off the front.
- `Json.memberTexts?` takes an object apart.
- `Json.embeddedText` is the text of a document inside another one.
-/

namespace Shading

namespace Json

/-- Splits the value in front off from what is left, without the blanks before it. -/
def spanValue (cs : List Symbol) : Option (List Symbol × List Symbol) :=
  let cs := skipBlanks cs
  (parseValue (2 * cs.length + 1) cs).map fun (_, rest) =>
    (cs.take (cs.length - rest.length), rest)

/-- Splits off the members of an object up to its closing brace.  Every member takes at
least one symbol, so the number of symbols bounds the number of steps. -/
def spanMembers : (steps : Nat) → List Symbol → Option (List (String × List Symbol))
  | 0, _ => none
  | steps + 1, cs => do
    let (key, rest) ← parseKey cs
    let (value, rest) ← spanValue rest
    match skipBlanks rest with
    | some '\x7d' :: _ => return [(← key, value)]
    | some ',' :: rest => return (← key, value) :: (← spanMembers steps rest)
    | _ => none

/-- The members of an object with the texts of their values. -/
def memberTexts? (s : String) : Option (List (String × String)) :=
  match skipBlanks (s.toList.map some) with
  | some '\x7b' :: rest =>
    match skipBlanks rest with
    | some '\x7d' :: _ => some []
    | rest => (spanMembers rest.length rest).map fun members =>
      members.map fun m => (m.1, String.ofList (m.2.filterMap id))
  | _ => none

/-- The text of a document inside another one, which is written as itself or as a string
that spells it. -/
def embeddedText (s : String) : String :=
  match scan? s with
  | some (.string text) => text
  | _ => s

end Json

end Shading
