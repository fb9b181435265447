import Shading.Layout.Block

/-!
# Layouts in words

Sizes and offsets of an argument block are words of 32 bits.  Here a layout is computed with a
look at the result of every addition and multiplication, and given up where one does not fit.

Main definitions:

- `ValueType.extentInWords` is the extent of a type, with every step in words.
- `Layout.buildInWords` lays out a parameter list in words.
-/

namespace Shading

/-- Why there is no layout in words. -/
inductive LayoutFault
  | storage (e : StorageError)
  | overflow
  deriving Repr, DecidableEq

/-- A result that a word holds. -/
def inWord (n : Nat) : Except LayoutFault Nat :=
  if n < Nat.pow 2 32 then .ok n else .error .overflow

/-- The extent of equal values side by side. -/
def Extent.repeatInWords (e : Extent) (count : Nat) : Except LayoutFault Extent := do
  let stride ← inWord e.stride
  return ⟨← inWord (count * stride), e.align⟩

/-- The extent of a vector. -/
def LayoutRules.vectorInWords (rules : LayoutRules) (element : ScalarType) (count : Nat) :
    Except LayoutFault Extent := do
  let e := rules.vectorExtent element count
  return ⟨← inWord e.size, e.align⟩

mutual

/-- The extent of a type. -/
def ValueType.extentInWords (rules : LayoutRules) : ValueType → Except LayoutFault Extent
  | .vector element count => rules.vectorInWords element count
  | .matrix columns rows => do (← rules.vectorInWords .float rows).repeatInWords columns
  | .array element count => do (← element.extentInWords rules).repeatInWords count
  | .struct _ fields => do
    let p ← Packing.appendInWords rules .empty fields
    return ⟨← inWord p.extent.size, p.align⟩
  | .bsdf => .error (.storage ⟨.bsdf⟩)
  | .edf => .error (.storage ⟨.edf⟩)
  | .vdf => .error (.storage ⟨.vdf⟩)
  | t => .ok (t.extent rules)

/-- Appends fields to a row of values. -/
def Packing.appendInWords (rules : LayoutRules) (p : Packing) :
    List (String × ValueType) → Except LayoutFault Packing
  | [] => .ok p
  | (_, t) :: rest => do
    let e ← t.extentInWords rules
    let offset ← inWord (roundUp p.tail e.align)
    let tail ← inWord (offset + e.size)
    Packing.appendInWords rules ⟨p.offsets ++ [offset], tail, max p.align e.align⟩ rest

end

mutual

/-- Whether words hold the offsets of the parts of a shape, which itself is at an offset. -/
def Shape.inWords : Shape → (offset : Nat) → Bool
  | .node _ _ children, offset => Shape.partsInWords children offset

/-- Whether words hold the offsets of parts, which count from a base. -/
def Shape.partsInWords : List (Nat × Shape) → (base : Nat) → Bool
  | [], _ => true
  | (offset, s) :: rest, base =>
    decide (base + offset < Nat.pow 2 32) && s.inWords (base + offset) && partsInWords rest base

end

/-- The type of a block: a structure of the parameters. -/
def blockType (parameters : List Parameter) : ValueType :=
  .struct "" (parameters.map fun p => (p.name, p.type))

namespace Layout

/-- Lays out a block in words. -/
def buildInWords (parameters : List Parameter) (rules : LayoutRules) :
    Except LayoutFault Layout := do
  let _ ← (blockType parameters).extentInWords rules
  if ((blockType parameters).shape rules).inWords 0 then
    (build parameters rules).mapError .storage
  else throw .overflow

end Layout

end Shading
