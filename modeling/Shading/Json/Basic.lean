import Shading.Number.Decimal

/-!
# JSON values

JSON values with numbers as they are written and object members in order, and
their two texts: the compact one and the indented one.

Main definitions:

- `Json` is the type of values, `Json.depth` the nesting of arrays and objects.
- `Json.within` cuts off what is nested too deep.
- `Json.text` is the compact text, `Json.pretty` the indented one.
- `Json.sortKeys` orders the members of every object by key.
-/

namespace Shading

/-- A JSON value.  `unreadable` is a part of a document that is well formed and yet
stands for nothing: a string that spells no text, an object with such a key, or an array
or object that is nested too deep.  It does no harm where nobody reads it. -/
inductive Json
  | null
  | bool (b : Bool)
  | number (n : Numeral)
  | string (s : String)
  | array (items : List Json)
  | object (members : List (String × Json))
  | unreadable
  deriving Repr, Inhabited

namespace Json

/-- A whole number. -/
def ofInt (n : Int) : Json :=
  .number (Numeral.ofInt n)

/-- A natural number. -/
def ofNat (n : Nat) : Json :=
  .number (Numeral.ofInt n)

/-- A value that may be missing, which is written as null. -/
def ofOption {α : Type} (write : α → Json) : Option α → Json
  | none => .null
  | some a => write a

/-- A list written as an array. -/
def ofList {α : Type} (write : α → Json) (items : List α) : Json :=
  .array (items.map write)

mutual

/-- How deep arrays and objects are nested. -/
def depth : Json → Nat
  | .array items => depthItems items + 1
  | .object members => depthMembers members + 1
  | _ => 0

/-- The greatest depth in a list of values. -/
def depthItems : List Json → Nat
  | [] => 0
  | item :: rest => max item.depth (depthItems rest)

/-- The greatest depth in a list of members. -/
def depthMembers : List (String × Json) → Nat
  | [] => 0
  | (_, value) :: rest => max value.depth (depthMembers rest)

end

mutual

/-- The value with at most the given number of levels; arrays and objects that are
nested deeper become unreadable. -/
def within : (levels : Nat) → Json → Json
  | 0, .array _ => .unreadable
  | 0, .object _ => .unreadable
  | levels + 1, .array items => .array (itemsWithin levels items)
  | levels + 1, .object members => .object (membersWithin levels members)
  | _, j => j

/-- The values of a list with at most the given number of levels. -/
def itemsWithin (levels : Nat) : List Json → List Json
  | [] => []
  | item :: rest => item.within levels :: itemsWithin levels rest

/-- The members of a list with at most the given number of levels. -/
def membersWithin (levels : Nat) : List (String × Json) → List (String × Json)
  | [] => []
  | (key, value) :: rest => (key, value.within levels) :: membersWithin levels rest

end

mutual

/-- Orders the members of every object by key. -/
def sortKeys : Json → Json
  | .array items => .array (sortItems items)
  | .object members =>
    .object ((sortMembers members).mergeSort fun a b => decide (a.1 ≤ b.1))
  | j => j

/-- Orders the members of every object in a list of values. -/
def sortItems : List Json → List Json
  | [] => []
  | item :: rest => item.sortKeys :: sortItems rest

/-- Orders the members of every object in the values of a list of members. -/
def sortMembers : List (String × Json) → List (String × Json)
  | [] => []
  | (key, value) :: rest => (key, value.sortKeys) :: sortMembers rest

end

/-! ## Text of strings -/

/-- A hexadecimal digit in lower case. -/
def hexChar (n : Nat) : Char :=
  if n < 10 then Char.ofNat ('0'.toNat + n) else Char.ofNat ('a'.toNat + (n - 10))

/-- A character inside a string.  Only the quote, the backslash and control
characters are written in another way than as themselves. -/
def escapeChar (c : Char) : List Char :=
  if c = '"' then ['\\', '"']
  else if c = '\\' then ['\\', '\\']
  else if c.toNat = 0x08 then ['\\', 'b']
  else if c.toNat = 0x09 then ['\\', 't']
  else if c.toNat = 0x0a then ['\\', 'n']
  else if c.toNat = 0x0c then ['\\', 'f']
  else if c.toNat = 0x0d then ['\\', 'r']
  else if c.toNat < 0x20 then
    ['\\', 'u', '0', '0', hexChar (c.toNat / 16), hexChar (c.toNat % 16)]
  else [c]

/-- A string between quotes. -/
def stringChars (s : String) : List Char :=
  '"' :: (s.toList.flatMap escapeChar ++ ['"'])

/-- A string of half a surrogate pair, which spells no text.  Unreadable parts are
written in this way, so that they are unreadable again when they are read. -/
def halfPairChars : List Char :=
  ['"', '\\', 'u', 'd', '8', '0', '0', '"']

/-! ## Compact text -/

mutual

/-- The characters of the compact text. -/
def chars : Json → List Char
  | .null => ['n', 'u', 'l', 'l']
  | .bool true => ['t', 'r', 'u', 'e']
  | .bool false => ['f', 'a', 'l', 's', 'e']
  | .number n => n.chars true
  | .string s => stringChars s
  | .array [] => ['[', ']']
  | .array (item :: rest) => '[' :: (item.chars ++ charsItems rest ++ [']'])
  | .object [] => ['\x7b', '\x7d']
  | .object ((key, value) :: rest) =>
    '\x7b' :: (stringChars key ++ ':' :: value.chars ++ charsMembers rest ++ ['\x7d'])
  | .unreadable => halfPairChars

/-- The characters of the items after the first one. -/
def charsItems : List Json → List Char
  | [] => []
  | item :: rest => ',' :: (item.chars ++ charsItems rest)

/-- The characters of the members after the first one. -/
def charsMembers : List (String × Json) → List Char
  | [] => []
  | (key, value) :: rest => ',' :: (stringChars key ++ ':' :: value.chars ++ charsMembers rest)

end

/-- The compact text. -/
def text (j : Json) : String :=
  String.ofList j.chars

/-! ## Indented text -/

/-- A new line with the given indentation. -/
def newLine (indent : Nat) : List Char :=
  '\n' :: List.replicate indent ' '

mutual

/-- The characters of the indented text, at the given indentation. -/
def prettyChars (indent : Nat) : Json → List Char
  | .array (item :: rest) =>
    '[' :: (newLine (indent + 2) ++ item.prettyChars (indent + 2)
      ++ prettyItems (indent + 2) rest ++ newLine indent ++ [']'])
  | .object ((key, value) :: rest) =>
    '\x7b' :: (newLine (indent + 2) ++ stringChars key ++ ':' :: ' ' ::
      value.prettyChars (indent + 2)
      ++ prettyMembers (indent + 2) rest ++ newLine indent ++ ['\x7d'])
  | j => j.chars

/-- The characters of the items after the first one. -/
def prettyItems (indent : Nat) : List Json → List Char
  | [] => []
  | item :: rest =>
    ',' :: (newLine indent ++ item.prettyChars indent ++ prettyItems indent rest)

/-- The characters of the members after the first one. -/
def prettyMembers (indent : Nat) : List (String × Json) → List Char
  | [] => []
  | (key, value) :: rest =>
    ',' :: (newLine indent ++ stringChars key ++ ':' :: ' ' :: value.prettyChars indent
      ++ prettyMembers indent rest)

end

/-- The text with one item or member a line, indented by two blanks a level. -/
def pretty (j : Json) : String :=
  String.ofList (j.prettyChars 0)

end Json

end Shading
