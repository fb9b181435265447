import Shading.Bytes
import Shading.Json.Basic

/-!
# Reading JSON text

A reader for JSON text.  It takes one value with blanks around it and nothing
else, and refuses control characters in strings and leading zeros.  What is well formed
but stands for no value becomes unreadable: strings with half surrogate pairs or with
stray bytes, objects with such keys, and what is nested deeper than `Json.maxDepth`.

Main definitions:

- `Json.parse?` reads a text, `Json.parseBytes?` one in UTF-8.
- `Json.scan?` reads a text of any depth.
- `Json.parseValue` reads one value off the front of a list of symbols and
  returns what is left.
-/

namespace Shading

namespace Json

/-- How deep arrays and objects may be nested. -/
def maxDepth : Nat := 127

/-- The characters that may stand between tokens. -/
def isBlank : Symbol → Bool
  | some c => c == ' ' || c == '\t' || c == '\n' || c == '\r'
  | none => false

/-- Drops the blanks in front. -/
def skipBlanks (cs : List Symbol) : List Symbol :=
  cs.dropWhile isBlank

/-! ## Strings -/

/-- The value of a hexadecimal digit. -/
def hexValue? (c : Char) : Option Nat :=
  if '0' ≤ c ∧ c ≤ '9' then some (c.toNat - '0'.toNat)
  else if 'a' ≤ c ∧ c ≤ 'f' then some (c.toNat - 'a'.toNat + 10)
  else if 'A' ≤ c ∧ c ≤ 'F' then some (c.toNat - 'A'.toNat + 10)
  else none

/-- The value of four hexadecimal digits. -/
def hexUnit? (a b c d : Char) : Option Nat := do
  return 4096 * (← hexValue? a) + 256 * (← hexValue? b) + 16 * (← hexValue? c) + (← hexValue? d)

/-- The character after a backslash, for the escapes of one letter. -/
def unescape? (c : Char) : Option Char :=
  if c = '"' ∨ c = '\\' ∨ c = '/' then some c
  else if c = 'b' then some (Char.ofNat 0x08)
  else if c = 'f' then some (Char.ofNat 0x0c)
  else if c = 'n' then some '\n'
  else if c = 'r' then some '\r'
  else if c = 't' then some '\t'
  else none

/-- A piece of a string: a character, a unit of UTF-16 by its number, or a stray byte. -/
inductive Piece
  | char (c : Char)
  | unit (n : Nat)
  | stray
  deriving Repr, DecidableEq

/-- Reads the pieces of a string whose opening quote is gone, up to its closing quote. -/
def parsePieces : List Symbol → Option (List Piece × List Symbol)
  | [] => none
  | some '"' :: rest => some ([], rest)
  | some '\\' :: some 'u' :: some a :: some b :: some c :: some d :: rest =>
    match hexUnit? a b c d with
    | some n => (parsePieces rest).map fun (ps, rest) => (.unit n :: ps, rest)
    | none => none
  | some '\\' :: some c :: rest =>
    match unescape? c with
    | some e => (parsePieces rest).map fun (ps, rest) => (.char e :: ps, rest)
    | none => none
  | some c :: rest =>
    if c == '\\' || c.toNat < 0x20 then none
    else (parsePieces rest).map fun (ps, rest) => (.char c :: ps, rest)
  | none :: rest => (parsePieces rest).map fun (ps, rest) => (.stray :: ps, rest)

/-- Whether a unit is the first half of a surrogate pair. -/
def isFirstHalf (n : Nat) : Bool :=
  0xd800 ≤ n && n < 0xdc00

/-- Whether a unit is the second half of a surrogate pair. -/
def isSecondHalf (n : Nat) : Bool :=
  0xdc00 ≤ n && n < 0xe000

/-- The character of a surrogate pair. -/
def pairChar (first second : Nat) : Char :=
  Char.ofNat (0x10000 + (first - 0xd800) * 0x400 + (second - 0xdc00))

/-- The text that pieces spell, if the halves of surrogate pairs stand side by side and
there is no stray byte.  `pending` is a first half that waits for its second half. -/
def spell? : (pending : Option Nat) → List Piece → Option (List Char)
  | none, [] => some []
  | none, .char c :: rest => (spell? none rest).map (c :: ·)
  | none, .unit n :: rest =>
    if isFirstHalf n then spell? (some n) rest
    else if isSecondHalf n then none
    else (spell? none rest).map (Char.ofNat n :: ·)
  | some first, .unit n :: rest =>
    if isSecondHalf n then (spell? none rest).map (pairChar first n :: ·) else none
  | _, _ => none

/-- Reads the rest of a string whose opening quote is gone.  There may be no text that
it spells. -/
def parseString (cs : List Symbol) : Option (Option String × List Symbol) :=
  (parsePieces cs).map fun (ps, rest) => ((spell? none ps).map String.ofList, rest)

/-- The value of a string literal. -/
def ofText? : Option String → Json
  | some s => .string s
  | none => .unreadable

/-- The object with the given members, each of which needs a key that spells a text. -/
def ofMembers (members : List (Option String × Json)) : Json :=
  match members.mapM fun m => m.1.map fun key => (key, m.2) with
  | some members => .object members
  | none => .unreadable

/-! ## Numbers -/

/-- Takes the digits off the front. -/
def spanDigits : List Symbol → Digits × List Symbol
  | some c :: rest =>
    match Digits.ofChar? c with
    | none => ([], some c :: rest)
    | some d =>
      let (ds, rest) := spanDigits rest
      (d :: ds, rest)
  | cs => ([], cs)

/-- Reads the whole part of a number: a zero, or digits that do not start with a
zero. -/
def parseWhole (cs : List Symbol) : Option (Nat × List Symbol) :=
  match spanDigits cs with
  | ([], _) => none
  | (d :: ds, rest) => if d.val = 0 ∧ ds ≠ [] then none else some (Digits.toNat (d :: ds), rest)

/-- Reads the point and the digits after it, if there is a point. -/
def parseFraction : List Symbol → Option (Digits × List Symbol)
  | some '.' :: rest =>
    match spanDigits rest with
    | ([], _) => none
    | (ds, rest) => some (ds, rest)
  | cs => some ([], cs)

/-- Reads the digits of an exponent behind its sign. -/
def parseExponentDigits (negative : Bool) (cs : List Symbol) : Option (Option Int × List Symbol) :=
  match spanDigits cs with
  | ([], _) => none
  | (ds, rest) =>
    let n : Int := Digits.toNat ds
    some (some (if negative then -n else n), rest)

/-- Reads the exponent, if there is one. -/
def parseExponent : List Symbol → Option (Option Int × List Symbol)
  | some c :: rest =>
    if c = 'e' ∨ c = 'E' then
      match rest with
      | some '-' :: rest => parseExponentDigits true rest
      | some '+' :: rest => parseExponentDigits false rest
      | rest => parseExponentDigits false rest
    else some (none, some c :: rest)
  | cs => some (none, cs)

/-- Reads a number behind its sign. -/
def parseUnsigned (negative : Bool) (cs : List Symbol) : Option (Numeral × List Symbol) := do
  let (whole, cs) ← parseWhole cs
  let (fraction, cs) ← parseFraction cs
  let (exponent, cs) ← parseExponent cs
  return (⟨negative, whole, fraction, exponent⟩, cs)

/-- Reads a number. -/
def parseNumeral : List Symbol → Option (Numeral × List Symbol)
  | some '-' :: rest => parseUnsigned true rest
  | cs => parseUnsigned false cs

/-! ## Values -/

/-- Reads the key of a member and the colon behind it. -/
def parseKey (cs : List Symbol) : Option (Option String × List Symbol) :=
  match skipBlanks cs with
  | some '"' :: rest =>
    match parseString rest with
    | none => none
    | some (key, rest) =>
      match skipBlanks rest with
      | some ':' :: rest => some (key, rest)
      | _ => none
  | _ => none

mutual

/-- Reads a value off the front.  Every step takes at least one symbol, so the number of
symbols bounds the number of steps. -/
def parseValue : (steps : Nat) → List Symbol → Option (Json × List Symbol)
  | 0, _ => none
  | steps + 1, cs =>
    match skipBlanks cs with
    | some 'n' :: some 'u' :: some 'l' :: some 'l' :: rest => some (.null, rest)
    | some 't' :: some 'r' :: some 'u' :: some 'e' :: rest => some (.bool true, rest)
    | some 'f' :: some 'a' :: some 'l' :: some 's' :: some 'e' :: rest => some (.bool false, rest)
    | some '"' :: rest => (parseString rest).map fun (s, rest) => (ofText? s, rest)
    | some '[' :: rest =>
      match skipBlanks rest with
      | some ']' :: rest => some (.array [], rest)
      | rest => (parseItems steps rest).map fun (js, rest) => (.array js, rest)
    | some '\x7b' :: rest =>
      match skipBlanks rest with
      | some '\x7d' :: rest => some (.object [], rest)
      | rest => (parseMembers steps rest).map fun (ms, rest) => (ofMembers ms, rest)
    | cs => (parseNumeral cs).map fun (n, rest) => (.number n, rest)

/-- Reads the items of an array up to its closing bracket. -/
def parseItems : (steps : Nat) → List Symbol → Option (List Json × List Symbol)
  | 0, _ => none
  | steps + 1, cs =>
    match parseValue steps cs with
    | none => none
    | some (item, rest) =>
      match skipBlanks rest with
      | some ']' :: rest => some ([item], rest)
      | some ',' :: rest => (parseItems steps rest).map fun (js, rest) => (item :: js, rest)
      | _ => none

/-- Reads the members of an object up to its closing brace. -/
def parseMembers : (steps : Nat) → List Symbol → Option (List (Option String × Json) × List Symbol)
  | 0, _ => none
  | steps + 1, cs =>
    match parseKey cs with
    | none => none
    | some (key, rest) =>
      match parseValue steps rest with
      | none => none
      | some (value, rest) =>
        match skipBlanks rest with
        | some '\x7d' :: rest => some ([(key, value)], rest)
        | some ',' :: rest =>
          (parseMembers steps rest).map fun (ms, rest) => ((key, value) :: ms, rest)
        | _ => none

end

/-- Reads symbols that hold one value and nothing else. -/
def parseSymbols? (cs : List Symbol) : Option Json :=
  match parseValue (2 * cs.length + 1) cs with
  | some (j, rest) => if (skipBlanks rest).isEmpty then some j else none
  | none => none

/-- Reads a text that holds one value and nothing else, at any depth. -/
def scan? (s : String) : Option Json :=
  parseSymbols? (s.toList.map some)

/-- Reads a text that holds one value and nothing else. -/
def parse? (s : String) : Option Json :=
  (scan? s).map (within maxDepth)

/-- Reads UTF-8 that holds one value and nothing else. -/
def parseBytes? (bytes : Bytes) : Option Json :=
  (parseSymbols? bytes.symbols).map (within maxDepth)

end Json

end Shading
