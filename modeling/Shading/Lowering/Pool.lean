import Shading.Bytes

/-!
# Shared data of a program

The strings and the read-only bytes that the routines of a program share.  Equal strings
share one id, and equal pieces of data one place.

Main definitions:

- `internString` gives a string its id.
- `DataPool` holds strings and read-only data, and `DataPool.addBytes` places a piece of
  data.
-/

namespace Shading

/-- The id of a string that is in the table. -/
def stringId? (table : List String) (s : String) : Option Nat :=
  table.findIdx? (· == s)

/-- Gives a string an id: the one it has, or the next one.  The first entry of a table
that is in use is the empty string. -/
def internString (table : List String) (s : String) : Nat × List String :=
  let table := if table.isEmpty then [""] else table
  match stringId? table s with
  | some id => (id, table)
  | none => (table.length, table ++ [s])

/-- Adds strings to a table, in order. -/
def internStrings (table : List String) (strings : List String) : List String :=
  strings.foldl (fun table s => (internString table s).2) table

/-- The strings and the read-only data of a program; `pieces` tells where the pieces of
data are. -/
structure DataPool where
  strings : List String
  bytes : Bytes
  pieces : List (Bytes × Nat)
  deriving Repr, DecidableEq

namespace DataPool

/-- The pool without data. -/
def empty : DataPool :=
  ⟨[], [], []⟩

/-- The alignment of pieces of data. -/
def pieceAlign : Nat := 16

/-- Gives a string its id. -/
def intern (p : DataPool) (s : String) : Nat × DataPool :=
  let (id, strings) := internString p.strings s
  (id, { p with strings })

/-- The zeros that bring the next piece to its alignment. -/
def padding (p : DataPool) : Bytes :=
  Bytes.zeros ((pieceAlign - p.bytes.length % pieceAlign) % pieceAlign)

/-- Places a piece of data and returns its offset.  A piece that is there already is not
placed again. -/
def addBytes (p : DataPool) (piece : Bytes) : Nat × DataPool :=
  match p.pieces.lookup piece with
  | some offset => (offset, p)
  | none =>
    let aligned := p.bytes ++ p.padding
    (aligned.length,
      { p with bytes := aligned ++ piece, pieces := p.pieces ++ [(piece, aligned.length)] })

end DataPool

end Shading
