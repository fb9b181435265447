import Shading.Target

/-!
# Programs in single-assignment form

The form into which expressions are lowered, shared by every target.  A routine is a
flat list of typed instructions, each of which may use the ones before it.  A program
is a list of routines with the data that they share.

Main definitions:

- `Op` and `Instr` are instructions, `Op.operands` what they use.
- `Routine` is one entry point, `Routine.WellFormed` the order of its instructions.
- `Program` holds routines, read-only data, strings and argument blocks.
-/

namespace Shading

/-! ## Operators -/

/-- Operators of one operand. -/
inductive UnaryOp
  | neg
  | not
  | sin
  | cos
  | sqrt
  | abs
  | floor
  | saturate
  | normalize
  | length
  deriving Repr, DecidableEq

instance : Named UnaryOp where
  all := [.neg, .not, .sin, .cos, .sqrt, .abs, .floor, .saturate, .normalize, .length]
  name
    | .neg => "neg"
    | .not => "not"
    | .sin => "sin"
    | .cos => "cos"
    | .sqrt => "sqrt"
    | .abs => "abs"
    | .floor => "floor"
    | .saturate => "saturate"
    | .normalize => "normalize"
    | .length => "length"

/-- Operators of two operands. -/
inductive BinaryOp
  | add
  | sub
  | mul
  | div
  | less
  | lessEqual
  | greater
  | equal
  | and
  | or
  | min
  | max
  | pow
  | dot
  | cross
  deriving Repr, DecidableEq

instance : Named BinaryOp where
  all := [.add, .sub, .mul, .div, .less, .lessEqual, .greater, .equal, .and, .or, .min, .max,
    .pow, .dot, .cross]
  name
    | .add => "add"
    | .sub => "sub"
    | .mul => "mul"
    | .div => "div"
    | .less => "less"
    | .lessEqual => "less_equal"
    | .greater => "greater"
    | .equal => "equal"
    | .and => "and"
    | .or => "or"
    | .min => "min"
    | .max => "max"
    | .pow => "pow"
    | .dot => "dot"
    | .cross => "cross"

/-- Operators of three operands.  The condition of a selection comes first. -/
inductive TernaryOp
  | select
  | clamp
  | lerp
  deriving Repr, DecidableEq

instance : Named TernaryOp where
  all := [.select, .clamp, .lerp]
  name
    | .select => "select"
    | .clamp => "clamp"
    | .lerp => "lerp"

/-- Fields of the shading state. -/
inductive StateField
  | normal
  | position
  | direction
  | animationTime
  | objectId
  deriving Repr, DecidableEq

instance : Named StateField where
  all := [.normal, .position, .direction, .animationTime, .objectId]
  name
    | .normal => "normal"
    | .position => "position"
    | .direction => "direction"
    | .animationTime => "animation_time"
    | .objectId => "object_id"

/-! ## Instructions -/

/-- What an instruction computes.  Operands are positions of earlier instructions. -/
inductive Op
  | bool (b : Bool)
  | int (n : Int32)
  | float (x : Float32)
  | double (x : Float)
  | roLoad (offset : Nat)
  | argLoad (block offset : Nat)
  | construct (args : List Nat)
  | extract (value index : Nat)
  | unary (op : UnaryOp) (a : Nat)
  | binary (op : BinaryOp) (a b : Nat)
  | ternary (op : TernaryOp) (a b c : Nat)
  | state (field : StateField)
  | textureCoordinate (index : Nat)
  | textureResult (index : Nat)
  | runtimeCall (name : String) (args : List Nat)
  deriving DecidableEq

namespace Op

/-- The operands, from left to right. -/
def operands : Op → List Nat
  | .construct args | .runtimeCall _ args => args
  | .extract value _ => [value]
  | .unary _ a => [a]
  | .binary _ a b => [a, b]
  | .ternary _ a b c => [a, b, c]
  | _ => []

/-- Renames the operands. -/
def mapOperands (f : Nat → Nat) : Op → Op
  | .construct args => .construct (args.map f)
  | .runtimeCall name args => .runtimeCall name (args.map f)
  | .extract value index => .extract (f value) index
  | .unary op a => .unary op (f a)
  | .binary op a b => .binary op (f a) (f b)
  | .ternary op a b c => .ternary op (f a) (f b) (f c)
  | op => op

end Op

/-- A typed instruction. -/
structure Instr where
  type : ValueType
  op : Op
  deriving DecidableEq

/-- Renames the operands of an instruction. -/
def Instr.mapOperands (f : Nat → Nat) (i : Instr) : Instr :=
  { i with op := i.op.mapOperands f }

/-! ## Routines and programs -/

/-- An entry point.  A switch returns the result that its index selects, and the
entry point that prepares a distribution returns nothing but stores texture results. -/
structure Routine where
  name : String
  kind : FunctionKind
  context : ExecutionContext
  argBlock : Option Nat
  body : Array Instr
  results : List Nat
  stores : List (Nat × Nat)
  deriving DecidableEq

namespace Routine

/-- A routine without instructions. -/
def empty (name : String) (kind : FunctionKind) (context : ExecutionContext) : Routine :=
  ⟨name, kind, context, none, #[], [], []⟩

/-- The instruction of an id. -/
def instr? (r : Routine) (id : Nat) : Option Instr :=
  r.body[id]?

/-- The type of an instruction. -/
def type? (r : Routine) (id : Nat) : Option ValueType :=
  (r.instr? id).map (·.type)

/-- The types of the results. -/
def resultTypes (r : Routine) : List ValueType :=
  r.results.filterMap r.type?

/-- Every instruction uses earlier ones only, and every result and every store is an
instruction. -/
structure WellFormed (r : Routine) : Prop where
  operands : ∀ id instr, r.instr? id = some instr → ∀ a ∈ instr.op.operands, a < id
  results : ∀ a ∈ r.results, a < r.body.size
  stores : ∀ s ∈ r.stores, s.2 < r.body.size

end Routine

/-- The declared parameters of an argument block. -/
structure ArgBlock where
  names : List String
  types : List ValueType
  deriving DecidableEq

/-- A program: entry points and the data that they share. -/
structure Program where
  routines : List Routine
  roSegment : List UInt8
  strings : List String
  argBlocks : List ArgBlock
  stateUsage : StateUsage
  numTextureSpaces : Nat
  numTextureResults : Nat
  deriving DecidableEq

namespace Program

/-- A program without routines. -/
def empty (numTextureSpaces numTextureResults : Nat) : Program :=
  ⟨[], [], [], [], .none, numTextureSpaces, numTextureResults⟩

/-- The first routine of a name. -/
def routine? (p : Program) (name : String) : Option Routine :=
  p.routines.find? fun r => r.name == name

end Program

end Shading
