/-!
# Byte strings

Byte strings, their hexadecimal text, and the little-endian bytes of words.

Main definitions:

- `Bytes` is a list of bytes, `Bytes.hex` and `Bytes.ofHex` are its text.
- `Bytes.ofText` and `Bytes.text?` are texts in UTF-8.
- `Bytes.symbols` reads UTF-8 that may hold bytes which belong to no character.
- `Bytes.ofWord32` and `Bytes.ofWord64` write words, `Bytes.toNat` reads them.
- `Bytes.splice?` overwrites a range.
-/

namespace Shading

/-- A byte string. -/
abbrev Bytes := List UInt8

/-- A character of a text in UTF-8, or nothing for a byte that belongs to no character. -/
abbrev Symbol := Option Char

namespace Bytes

/-- A hexadecimal digit in lower case. -/
def hexDigit (n : Nat) : Char :=
  if n < 10 then Char.ofNat ('0'.toNat + n) else Char.ofNat ('a'.toNat + (n - 10))

/-- Two hexadecimal digits. -/
def hexByte (b : UInt8) : List Char :=
  [hexDigit (b.toNat / 16), hexDigit (b.toNat % 16)]

/-- The bytes in hexadecimal, two digits each. -/
def hex (bytes : Bytes) : String :=
  String.ofList (bytes.flatMap hexByte)

/-- The value of a hexadecimal digit, zero for anything else. -/
def hexValue (c : Char) : Nat :=
  if '0' ≤ c ∧ c ≤ '9' then c.toNat - '0'.toNat
  else if 'a' ≤ c ∧ c ≤ 'f' then c.toNat - 'a'.toNat + 10
  else if 'A' ≤ c ∧ c ≤ 'F' then c.toNat - 'A'.toNat + 10
  else 0

/-- The bytes of hexadecimal digits, two digits each.  A last odd digit is dropped. -/
def ofHex : List Char → Bytes
  | a :: b :: rest => UInt8.ofNat (16 * hexValue a + hexValue b) :: ofHex rest
  | _ => []

/-- The bytes of a text in UTF-8. -/
def ofText (s : String) : Bytes :=
  s.toUTF8.data.toList

/-- The text of bytes in UTF-8, if they are valid. -/
def text? (bytes : Bytes) : Option String :=
  String.fromUTF8? ⟨bytes.toArray⟩

/-- The symbols from a position on, at most `count` of them. -/
def symbolsFrom (bytes : ByteArray) : (count position : Nat) → List Symbol
  | 0, _ => []
  | count + 1, position =>
    if position < bytes.size then
      match bytes.utf8DecodeChar? position with
      | some c => some c :: symbolsFrom bytes count (position + c.utf8Size)
      | none => none :: symbolsFrom bytes count (position + 1)
    else []

/-- The characters of UTF-8, with the stray bytes between them. -/
def symbols (bytes : Bytes) : List Symbol :=
  symbolsFrom ⟨bytes.toArray⟩ bytes.length 0

/-- The little-endian bytes of a natural number, cut off after `count` bytes. -/
def littleEndian : (count n : Nat) → Bytes
  | 0, _ => []
  | count + 1, n => UInt8.ofNat n :: littleEndian count (n / 256)

/-- The four bytes of a word. -/
def ofWord32 (w : UInt32) : Bytes :=
  littleEndian 4 w.toNat

/-- The eight bytes of a word. -/
def ofWord64 (w : UInt64) : Bytes :=
  littleEndian 8 w.toNat

/-- The number that little-endian bytes spell. -/
def toNat : Bytes → Nat
  | [] => 0
  | b :: rest => b.toNat + 256 * toNat rest

/-- Overwrites the bytes from an offset on, if they all lie inside. -/
def splice? (block : Bytes) (offset : Nat) (bytes : Bytes) : Option Bytes :=
  if offset + bytes.length ≤ block.length then
    some (block.take offset ++ bytes ++ block.drop (offset + bytes.length))
  else none

/-- A block of zeros. -/
def zeros (count : Nat) : Bytes :=
  List.replicate count 0

end Bytes

end Shading
