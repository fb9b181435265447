import Shading.Bytes
import Shading.Layout.Rules
import Shading.Material.Basic

/-!
# Argument block layouts

The layout of a block that holds the parameters of a function, and the packing of
values into such a block.  A layout is a flat list of nodes that forms a tree: node 0 is
the block, and the children of a node stand side by side, so a position in the list is
an address.

Main definitions:

- `Shape` is the tree of a type with offsets relative to the parent, `ValueType.shape`
  the shape of a type.
- `Layout.build` lays out a parameter list; `Layout.child?` and `Layout.entry?` follow
  and read addresses.
- `Layout.pack` writes a value at an address; `Layout.fill` and `Layout.fillPartial`
  write all parameters.
-/

namespace Shading

/-! ## Shapes -/

/-- The tree of a type: its kind, its size, and its parts with their offsets from its
start. -/
inductive Shape
  | node (kind : ValueKind) (size : Nat) (children : List (Nat × Shape))

namespace ValueType

/-- The shape of a vector. -/
def vectorShape (rules : LayoutRules) (element : ScalarType) (count : Nat) : Shape :=
  .node .vector (rules.vectorExtent element count).size
    ((childOffsets rules (.vector element count)).map fun offset =>
      (offset, .node (ofScalar element).kind (rules.scalarExtent element).size []))

mutual

/-- The shape of a type. -/
def shape (rules : LayoutRules) : ValueType → Shape
  | .vector element count => vectorShape rules element count
  | .color =>
    .node .color (size rules .color)
      ((childOffsets rules .color).map fun offset => (offset, .node .float 4 []))
  | .matrix columns rows =>
    .node .matrix (size rules (.matrix columns rows))
      ((childOffsets rules (.matrix columns rows)).map fun offset =>
        (offset, vectorShape rules .float rows))
  | .array element count =>
    .node .array (size rules (.array element count))
      ((childOffsets rules (.array element count)).map fun offset =>
        (offset, shape rules element))
  | .struct name fields =>
    .node .struct (size rules (.struct name fields))
      ((childOffsets rules (.struct name fields)).zip (fieldShapes rules fields))
  | t => .node t.kind (size rules t) []

/-- The shapes of the fields of a structure. -/
def fieldShapes (rules : LayoutRules) : List (String × ValueType) → List Shape
  | [] => []
  | (_, t) :: rest => shape rules t :: fieldShapes rules rest

end

end ValueType

/-! ## Layouts -/

/-- A node of a layout.  Offsets count from the start of the block. -/
structure LayoutNode where
  kind : ValueKind
  offset : Nat
  size : Nat
  firstChild : Nat
  childCount : Nat
  deriving Repr, DecidableEq

/-- What stands in a node that was not placed yet. -/
def LayoutNode.placeholder : LayoutNode :=
  ⟨.int, 0, 0, 0, 0⟩

mutual

/-- Writes a shape into the node at an index and appends its parts, part by part. -/
def Shape.place : Shape → (index offset : Nat) → Array LayoutNode → Array LayoutNode
  | .node kind size children, index, offset, nodes =>
    let first := nodes.size
    let nodes := nodes.setIfInBounds index ⟨kind, offset, size, first, children.length⟩
    placeAll children first offset
      (nodes ++ Array.replicate children.length LayoutNode.placeholder)

/-- Writes shapes into the nodes from an index on; their offsets count from a base. -/
def Shape.placeAll : List (Nat × Shape) → (index base : Nat) → Array LayoutNode → Array LayoutNode
  | [], _, _, nodes => nodes
  | (offset, s) :: rest, index, base, nodes =>
    placeAll rest (index + 1) base (s.place index (base + offset) nodes)

end

/-- The layout of an argument block. -/
structure Layout where
  nodes : Array LayoutNode
  rules : LayoutRules
  names : List String
  deriving Repr, DecidableEq

/-- Kind, size and offset at an address of a layout. -/
structure LayoutEntry where
  kind : ValueKind
  size : Nat
  offset : Nat
  deriving Repr, DecidableEq

namespace Layout

/-- The address of the block itself. -/
def root : Nat := 0

/-- Lays out a block that holds the parameters in order. -/
def build (parameters : List Parameter) (rules : LayoutRules) : Except StorageError Layout :=
  match parameters.findSome? fun p => p.type.distribution? with
  | some d => .error ⟨d⟩
  | none =>
    let packing := pack (parameters.map fun p => p.type.extent rules)
    let shapes := parameters.map fun p => p.type.shape rules
    let block := Shape.node .struct packing.extent.size (packing.offsets.zip shapes)
    .ok ⟨block.place root 0 #[.placeholder], rules, parameters.map (·.name)⟩

/-- The size of the block in bytes. -/
def size (l : Layout) : Nat :=
  match l.nodes[0]? with
  | some n => n.size
  | none => 0

/-- The number of parts at an address, zero where there is none. -/
def elementCount (l : Layout) (address : Nat) : Nat :=
  match l.nodes[address]? with
  | some n => n.childCount
  | none => 0

/-- What stands at an address. -/
def entry? (l : Layout) (address : Nat) : Option LayoutEntry :=
  l.nodes[address]?.map fun n => ⟨n.kind, n.size, n.offset⟩

/-- The address of a part. -/
def child? (l : Layout) (index address : Nat) : Option Nat :=
  match l.nodes[address]? with
  | some n => if index < n.childCount then some (n.firstChild + index) else none
  | none => none

/-- The address at the end of a path of part numbers. -/
def address? (l : Layout) : (path : List Nat) → (start : Nat) → Option Nat
  | [], start => some start
  | index :: rest, start =>
    match l.child? index start with
    | some next => l.address? rest next
    | none => none

/-- What stands at the address of a parameter. -/
def parameter? (l : Layout) (index : Nat) : Option LayoutEntry :=
  (l.child? index root).bind l.entry?

end Layout

/-! ## Packing values -/

/-- Why a value could not be packed. -/
inductive LayoutError
  | invalidAddress
  | kindMismatch (expected found : ValueKind)
  | childCountMismatch (expected found : Nat)
  | unsupported (what : String)
  deriving Repr, DecidableEq

namespace LayoutError

/-- The wording of a layout error. -/
def message : LayoutError → String
  | .invalidAddress => "layout address is invalid or the block is too small"
  | .kindMismatch expected found =>
    "value kind " ++ found.label ++ " does not match layout kind " ++ expected.label
  | .childCountMismatch expected found =>
    s!"value has {found} children, layout expects {expected}"
  | .unsupported what => s!"{what} values cannot be stored in this argument block"

/-- The kind of a layout error as it is named in reports. -/
def label : LayoutError → String
  | .invalidAddress => "InvalidAddress"
  | .kindMismatch .. => "KindMismatch"
  | .childCountMismatch .. => "ChildCountMismatch"
  | .unsupported _ => "Unsupported"

/-- The status code of a layout error. -/
def code : LayoutError → Int
  | .invalidAddress => -1
  | .kindMismatch .. => -3
  | .childCountMismatch .. => -4
  | .unsupported _ => -5

end LayoutError

/-- How references become the integers that are stored: the index of a resource, zero for
one that is invalid or unknown, and the id of a string where strings have ids. -/
structure IndexResolver where
  resourceIndex : ResourceRef → Nat
  stringIndex : String → Option Nat

/-- Changes a block, or fails and leaves the block as it is by then. -/
abbrev PackM := ExceptT LayoutError (StateM Bytes)

namespace Layout

/-- Overwrites bytes of the block. -/
def writeBytes (offset : Nat) (bytes : Bytes) : PackM Unit := do
  match (← get).splice? offset bytes with
  | some block => set block
  | none => throw .invalidAddress

/-- The bytes of a natural number as a word of 32 bits. -/
def wordBytes (n : Nat) : Bytes :=
  Bytes.ofWord32 (UInt32.ofNat n)

/-- The bytes of a literal without parts; `size` is the room that it has. -/
def leafBytes (resolver : IndexResolver) (size : Nat) : Value → Except LayoutError Bytes
  | .bool b =>
    let n := if b then 1 else 0
    .ok (if size = 1 then [UInt8.ofNat n] else wordBytes n)
  | .int n | .enum n => .ok (Bytes.ofWord32 n.toUInt32)
  | .float x => .ok (Bytes.ofWord32 x.toBits)
  | .double x => .ok (Bytes.ofWord64 x.toBits)
  | .string s =>
    match resolver.stringIndex s with
    | some id => .ok (wordBytes id)
    | none => .error (.unsupported "string")
  | v =>
    match v.resource? with
    | some ref => .ok (wordBytes (resolver.resourceIndex ref))
    | none => .error (.unsupported v.kind.label)

/-- The node at an address, which has to have the kind of a value. -/
def nodeFor (l : Layout) (kind : ValueKind) (address : Nat) : Except LayoutError LayoutNode :=
  match l.nodes[address]? with
  | none => .error .invalidAddress
  | some n => if kind = n.kind then .ok n else .error (.kindMismatch n.kind kind)

/-- Checks the number of parts of a value against a node. -/
def checkCount (n : LayoutNode) (count : Nat) : Except LayoutError Unit :=
  if count = n.childCount then .ok () else .error (.childCountMismatch n.childCount count)

mutual

/-- Writes a value at an address.  A compound value must have as many parts as the node
and is written part by part; what was written before a failure stays. -/
def pack (l : Layout) (resolver : IndexResolver) : Value → (address : Nat) → PackM Unit
  | .vector parts, address => do
    let n ← l.nodeFor .vector address
    checkCount n parts.length
    l.packAll resolver parts n.firstChild
  | .matrix parts, address => do
    let n ← l.nodeFor .matrix address
    checkCount n parts.length
    l.packAll resolver parts n.firstChild
  | .array parts, address => do
    let n ← l.nodeFor .array address
    checkCount n parts.length
    l.packAll resolver parts n.firstChild
  | .struct parts, address => do
    let n ← l.nodeFor .struct address
    checkCount n parts.length
    l.packAll resolver parts n.firstChild
  | .color r g b, address => do
    let n ← l.nodeFor .color address
    checkCount n 3
    l.packLeaf resolver (.float r) n.firstChild
    l.packLeaf resolver (.float g) (n.firstChild + 1)
    l.packLeaf resolver (.float b) (n.firstChild + 2)
  | v, address => l.packLeaf resolver v address

/-- Writes the values of a list at an address and the ones after it. -/
def packAll (l : Layout) (resolver : IndexResolver) : List Value → (address : Nat) → PackM Unit
  | [], _ => pure ()
  | v :: rest, address => do
    l.pack resolver v address
    l.packAll resolver rest (address + 1)

/-- Writes a value without parts at an address. -/
def packLeaf (l : Layout) (resolver : IndexResolver) (v : Value) (address : Nat) : PackM Unit := do
  let n ← l.nodeFor v.kind address
  writeBytes n.offset (← leafBytes resolver n.size v)

end

/-- Writes a value into a block at an address. -/
def setValue (l : Layout) (resolver : IndexResolver) (v : Value) (address : Nat) (block : Bytes) :
    Except LayoutError Unit × Bytes :=
  (l.pack resolver v address).run block

/-- Writes the values of a list into the parameters from an index on, up to the first
failure. -/
def fillFrom (l : Layout) (resolver : IndexResolver) : (index : Nat) → List Value → PackM Unit
  | _, [] => pure ()
  | index, v :: rest => do
    match l.child? index root with
    | none => throw .invalidAddress
    | some address => l.pack resolver v address
    l.fillFrom resolver (index + 1) rest

/-- Writes the values into the parameters, in order, up to the first failure. -/
def fill (l : Layout) (resolver : IndexResolver) (values : List Value) (block : Bytes) :
    Except LayoutError Unit × Bytes :=
  (l.fillFrom resolver 0 values).run block

/-- The block with the range of an address set to zero, if the range lies inside. -/
def clear (l : Layout) (address : Nat) (block : Bytes) : Bytes :=
  match l.entry? address with
  | some e => (block.splice? e.offset (Bytes.zeros e.size)).getD block
  | none => block

/-- Writes the values of a list into the parameters from an index on.  A parameter whose
value cannot be packed is cleared and returned with the cause. -/
def fillPartialFrom (l : Layout) (resolver : IndexResolver) :
    (index : Nat) → List Value → Bytes → List (Nat × LayoutError) × Bytes
  | _, [], block => ([], block)
  | index, v :: rest, block =>
    match l.child? index root with
    | none =>
      let (failed, block) := l.fillPartialFrom resolver (index + 1) rest block
      ((index, .invalidAddress) :: failed, block)
    | some address =>
      match l.setValue resolver v address block with
      | (.ok (), block) => l.fillPartialFrom resolver (index + 1) rest block
      | (.error e, block) =>
        let (failed, block) :=
          l.fillPartialFrom resolver (index + 1) rest (l.clear address block)
        ((index, e) :: failed, block)

/-- Writes the values into the parameters, in order, past those that cannot be packed.
Those are cleared and returned with the cause. -/
def fillPartial (l : Layout) (resolver : IndexResolver) (values : List Value) (block : Bytes) :
    List (Nat × LayoutError) × Bytes :=
  l.fillPartialFrom resolver 0 values block

/-- A block of zeros for the layout. -/
def newBlock (l : Layout) : Bytes :=
  Bytes.zeros l.size

end Layout

end Shading
