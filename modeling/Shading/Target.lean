import Shading.ValueType.Json

/-!
# Targets and shading state

The vocabulary of a compile: what it is for, which functions come out, in which
context they run, and which parts of the shading state they read.

Main definitions:

- `TargetKind`, `OutputFormat`, `InternalSpace` and `CallMode` choose the output.
- `FunctionKind` and `ExecutionContext` classify functions.
- `UniformState` fixes the transforms of one instance; `StateUsage` is the set of
  state fields that are read.
-/

namespace Shading

/-- What code is generated for. -/
inductive TargetKind
  | native
  | portableIr
  | gpu
  deriving Repr, DecidableEq

instance : Named TargetKind where
  all := [.native, .portableIr, .gpu]
  name
    | .native => "native"
    | .portableIr => "portable_ir"
    | .gpu => "gpu"

/-- The target of a name or of one of its alternative spellings. -/
def TargetKind.parse? : String → Option TargetKind
  | "native" => some .native
  | "portable_ir" | "portable-ir" | "ir" => some .portableIr
  | "gpu" | "wgsl" => some .gpu
  | _ => none

/-- The kinds of entry points. -/
inductive FunctionKind
  | environment
  | lambda
  | switchLambda
  | dfInit
  | dfSample
  | dfEvaluate
  | dfPdf
  deriving Repr, DecidableEq

instance : Named FunctionKind where
  all := [.environment, .lambda, .switchLambda, .dfInit, .dfSample, .dfEvaluate, .dfPdf]
  name
    | .environment => "environment"
    | .lambda => "lambda"
    | .switchLambda => "switch_lambda"
    | .dfInit => "df_init"
    | .dfSample => "df_sample"
    | .dfEvaluate => "df_evaluate"
    | .dfPdf => "df_pdf"

namespace FunctionKind

/-- The entry points of a distribution function with the endings of their names, in
order. -/
def distributionEntries : List (FunctionKind × String) :=
  [(.dfInit, "init"), (.dfSample, "sample"), (.dfEvaluate, "evaluate"), (.dfPdf, "pdf")]

/-- Whether the entry point belongs to a distribution function. -/
def isDistribution : FunctionKind → Bool
  | .dfInit | .dfSample | .dfEvaluate | .dfPdf => true
  | _ => false

end FunctionKind

/-- The shading state against which a function runs. -/
inductive ExecutionContext
  | core
  | displacement
  | environment
  deriving Repr, DecidableEq

instance : Named ExecutionContext where
  all := [.core, .displacement, .environment]
  name
    | .core => "core"
    | .displacement => "displacement"
    | .environment => "environment"

namespace ExecutionContext

/-- The context as it is named in diagnostics and listings. -/
def label : ExecutionContext → String
  | .core => "Core"
  | .displacement => "Displacement"
  | .environment => "Environment"

/-- The context in which a material field runs. -/
def ofPath (path : String) : ExecutionContext :=
  if path = "geometry.displacement" then .displacement else .core

end ExecutionContext

/-- The form of the generated code. -/
inductive OutputFormat
  | assembly
  | portableIr
  | portableIrBinary
  deriving Repr, DecidableEq

instance : Named OutputFormat where
  all := [.assembly, .portableIr, .portableIrBinary]
  name
    | .assembly => "assembly"
    | .portableIr => "portable_ir"
    | .portableIrBinary => "portable_ir_binary"

/-- The space in which state positions and normals are given. -/
inductive InternalSpace
  | world
  | object
  deriving Repr, DecidableEq

instance : Named InternalSpace where
  all := [.world, .object]
  name
    | .world => "world"
    | .object => "object"

/-- How generated code reaches the texture functions of the renderer. -/
inductive CallMode
  | vtable
  | directCall
  | optixCp
  deriving Repr, DecidableEq

instance : Named CallMode where
  all := [.vtable, .directCall, .optixCp]
  name
    | .vtable => "vtable"
    | .directCall => "direct_call"
    | .optixCp => "optix_cp"

/-- How the names of the renderer's functions begin. -/
def CallMode.namePrefix : CallMode → String
  | .vtable => "rt_vt_"
  | .directCall => "rt_"
  | .optixCp => "rt_cp_"

/-! ## Uniform state -/

/-- A matrix of four rows of four numbers. -/
abbrev Transform := Vector (Vector Float32 4) 4

/-- Exactly four items. -/
def vector4? {α : Type} : List α → Option (Vector α 4)
  | [a, b, c, d] => some #v[a, b, c, d]
  | _ => none

/-- Reads a matrix by rows. -/
def Transform.ofJson? (j : Json) : Option Transform := do
  let rows ← j.list? fun row => do vector4? (← row.list? Json.float32?)
  vector4? rows

/-- The matrix as JSON, by rows. -/
def Transform.toJson (single : Float32 → Json) (t : Transform) : Json :=
  .ofList (fun row : Vector Float32 4 => .ofList single row.toList) t.toList

/-- The transforms and the id of one object, fixed for a compile.  Matrices are given by
rows and apply to column vectors. -/
structure UniformState where
  worldToObject : Transform
  objectToWorld : Transform
  objectId : Int32

namespace UniformState

/-- The state as JSON. -/
def toJson (single : Float32 → Json) (u : UniformState) : Json :=
  .object [("world_to_object", Transform.toJson single u.worldToObject),
    ("object_to_world", Transform.toJson single u.objectToWorld),
    ("object_id", .ofInt32 u.objectId)]

/-- Reads a uniform state. -/
def ofJson? (j : Json) : Option UniformState := do
  let r ← j.record? ["world_to_object", "object_to_world", "object_id"]
  return ⟨← r.get? "world_to_object" Transform.ofJson?,
    ← r.get? "object_to_world" Transform.ofJson?, ← r.get? "object_id" Json.int32?⟩

end UniformState

/-! ## State usage -/

/-- The parts of the shading state that code can read. -/
inductive StateFlag
  | normal
  | position
  | textureCoordinate
  | direction
  | animationTime
  | textureResults
  | transforms
  | roData
  | objectId
  deriving Repr, DecidableEq

/-- The bit of a flag. -/
def StateFlag.bit : StateFlag → Nat
  | .normal => 0
  | .position => 1
  | .textureCoordinate => 2
  | .direction => 3
  | .animationTime => 4
  | .textureResults => 5
  | .transforms => 6
  | .roData => 7
  | .objectId => 8

/-- A set of flags as a bit set. -/
structure StateUsage where
  bits : Nat
  deriving Repr, DecidableEq

namespace StateUsage

/-- The empty set. -/
def none : StateUsage :=
  ⟨0⟩

/-- The union of two sets. -/
def union (a b : StateUsage) : StateUsage :=
  ⟨a.bits ||| b.bits⟩

/-- Whether every bit of a mask is set. -/
def contains (a : StateUsage) (mask : Nat) : Bool :=
  a.bits &&& mask == mask

/-- Whether a flag is in the set. -/
def has (a : StateUsage) (flag : StateFlag) : Bool :=
  a.bits.testBit flag.bit

/-- Adds a flag. -/
def insert (a : StateUsage) (flag : StateFlag) : StateUsage :=
  ⟨a.bits ||| Nat.pow 2 flag.bit⟩

end StateUsage

end Shading
