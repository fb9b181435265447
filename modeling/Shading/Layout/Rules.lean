import Shading.ValueType.Basic

/-!
# Layout rules

Sizes, alignments and offsets of types in memory, under two sets of rules: the scalar
rules align a value to its widest scalar, the storage rules are those of shader
storage buffers.

Main definitions:

- `ValueType.size` and `ValueType.align` measure a type in bytes.
- `ValueType.childOffsets` are the offsets of the parts of a type.
- `pack` places blocks of memory one after the other.

Distributions have no place in memory.  `ValueType.distribution?` finds them, and
what is said of sizes holds of the types without one.
-/

namespace Shading

/-- The rules by which values are packed. -/
inductive LayoutRules
  | scalar
  | gpuStorage
  deriving Repr, DecidableEq

instance : Named LayoutRules where
  all := [.scalar, .gpuStorage]
  name
    | .scalar => "scalar"
    | .gpuStorage => "gpu_storage"

/-- The least multiple of an alignment that is not below a number. -/
def roundUp (n align : Nat) : Nat :=
  (n + align - 1) / align * align

/-- Size and alignment of a block of memory. -/
structure Extent where
  size : Nat
  align : Nat
  deriving Repr, DecidableEq

/-- The distance between two neighbouring values. -/
def Extent.stride (e : Extent) : Nat :=
  roundUp e.size e.align

namespace LayoutRules

/-- The extent of a scalar. -/
def scalarExtent (rules : LayoutRules) : ScalarType → Extent
  | .bool =>
    match rules with
    | .scalar => ⟨1, 1⟩
    | .gpuStorage => ⟨4, 4⟩
  | .int | .float => ⟨4, 4⟩
  | .double => ⟨8, 8⟩

/-- The extent of a vector.  In storage buffers a vector is aligned to its size, a
vector of three like one of four, and no vector is wider than four. -/
def vectorExtent (rules : LayoutRules) (element : ScalarType) (count : Nat) : Extent :=
  let e := rules.scalarExtent element
  match rules with
  | .scalar => ⟨e.size * count, e.align⟩
  | .gpuStorage =>
    match count with
    | 0 | 1 => e
    | 2 => ⟨2 * e.size, 2 * e.size⟩
    | 3 => ⟨3 * e.size, 4 * e.size⟩
    | _ => ⟨4 * e.size, 4 * e.size⟩

end LayoutRules

/-- A row of values being packed: the offsets given out, the end of the last value, and
the greatest alignment. -/
structure Packing where
  offsets : List Nat
  tail : Nat
  align : Nat
  deriving Repr, DecidableEq

namespace Packing

/-- The row without values. -/
def empty : Packing :=
  ⟨[], 0, 1⟩

/-- Appends a value at the next offset that suits its alignment. -/
def append (p : Packing) (e : Extent) : Packing :=
  let offset := roundUp p.tail e.align
  ⟨p.offsets ++ [offset], offset + e.size, max p.align e.align⟩

/-- The extent of the whole row. -/
def extent (p : Packing) : Extent :=
  ⟨roundUp p.tail p.align, p.align⟩

end Packing

/-- Places blocks of memory one after the other. -/
def pack (extents : List Extent) : Packing :=
  extents.foldl Packing.append .empty

namespace ValueType

mutual

/-- The extent of a type.  A distribution takes no room. -/
def extent (rules : LayoutRules) : ValueType → Extent
  | .bool => rules.scalarExtent .bool
  | .int | .enum _ | .float | .string | .texture _ | .lightProfile | .bsdfMeasurement => ⟨4, 4⟩
  | .double => ⟨8, 8⟩
  | .vector element count => rules.vectorExtent element count
  | .color => rules.vectorExtent .float 3
  | .matrix columns rows =>
    let column := rules.vectorExtent .float rows
    ⟨columns * column.stride, column.align⟩
  | .array element count =>
    let e := extent rules element
    ⟨count * e.stride, e.align⟩
  | .struct _ fields => (pack (fieldExtents rules fields)).extent
  | .bsdf | .edf | .vdf => ⟨0, 1⟩

/-- The extents of the fields of a structure. -/
def fieldExtents (rules : LayoutRules) : List (String × ValueType) → List Extent
  | [] => []
  | (_, t) :: rest => extent rules t :: fieldExtents rules rest

end

/-- The size of a type in bytes. -/
def size (rules : LayoutRules) (t : ValueType) : Nat :=
  (t.extent rules).size

/-- The alignment of a type in bytes. -/
def align (rules : LayoutRules) (t : ValueType) : Nat :=
  (t.extent rules).align

/-- The offsets of the parts of a type from its start. -/
def childOffsets (rules : LayoutRules) : ValueType → List Nat
  | .vector element count =>
    (List.range count).map fun i => i * (rules.scalarExtent element).size
  | .color => [0, 4, 8]
  | .matrix columns rows =>
    (List.range columns).map fun i => i * (rules.vectorExtent .float rows).stride
  | .array element count => (List.range count).map fun i => i * (element.extent rules).stride
  | .struct _ fields => (pack (fieldExtents rules fields)).offsets
  | _ => []

end ValueType

/-- A distribution was to be stored in memory. -/
structure StorageError where
  type : ValueType
  deriving Repr, DecidableEq

/-- The wording of a storage error. -/
def StorageError.message (e : StorageError) : String :=
  "distribution type " ++ e.type.text ++ " cannot be stored in an argument block"

/-- Size and alignment of a type that holds no distribution. -/
def ValueType.extent? (rules : LayoutRules) (t : ValueType) : Except StorageError Extent :=
  match t.distribution? with
  | some d => .error ⟨d⟩
  | none => .ok (t.extent rules)

end Shading
