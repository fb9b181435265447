import Shading.Layout.Block
import Shading.Lowering.Error
import Shading.Lowering.Pool
import Shading.Options
import Shading.Program.Basic
import Shading.Resource.Registry

/-!
# Lowering of constants

The setting in which expressions are lowered, and the instructions of constants.  A
large compound constant is placed in the read-only data, every other one is put
together from its parts.

Main definitions:

- `LowerEnv` is what lowering reads, `LowerState` what it changes, `LowerM` the two
  together with failure.
- `emit` appends an instruction.
- `lowerConstant` lowers a literal.
-/

namespace Shading

/-- What lowering depends on: the options, what names stand for, where constants go, the layout of
data, the resources of the fragment, and the state in which the routine runs. -/
structure LowerEnv where
  options : Options
  resolver : Resolver
  useRoSegment : Bool
  rules : LayoutRules
  resources : ResourceMap
  context : ExecutionContext
  uniform : Option UniformState

/-- A routine that is being lowered: the data of its program, its instructions, and the
parts of the state that it reads. -/
structure LowerState where
  pool : DataPool
  body : Array Instr
  usage : StateUsage
  deriving DecidableEq

/-- Changes the routine, or fails and leaves it as it is by then. -/
abbrev LowerM := ExceptT LowerError (StateM LowerState)

/-- Appends an instruction and returns its id. -/
def emit (type : ValueType) (op : Op) : LowerM Nat := do
  let s ← get
  set { s with body := s.body.push ⟨type.storage, op⟩ }
  return s.body.size

/-- Records that a part of the state is read. -/
def noteUsage (flag : StateFlag) : LowerM Unit :=
  modify fun s => { s with usage := s.usage.insert flag }

/-- Changes the data of the program. -/
def modifyPool {α : Type} (f : DataPool → α × DataPool) : LowerM α :=
  modifyGet fun s => let (a, pool) := f s.pool; (a, { s with pool })

/-- A constant of at most this many bytes is put together from its parts. -/
def roThreshold : Nat := 16

/-- How references in a constant are resolved. -/
def LowerEnv.indexResolver (env : LowerEnv) (strings : List String) : IndexResolver where
  resourceIndex ref := ((env.resources.find? ref).map (·.index)).getD 0
  stringIndex s := if env.options.mapStringsToIds then stringId? strings s else none

/-- The bytes of a constant that goes into the read-only data, and the strings that
become known on the way. -/
def LowerEnv.roBytes (env : LowerEnv) (value : Value) (type : ValueType) (strings : List String) :
    Option Bytes × List String :=
  if !env.useRoSegment then (none, strings)
  else
    match Layout.build [⟨"", type, value⟩] env.rules with
    | .error _ => (none, strings)
    | .ok layout =>
      if layout.size ≤ roThreshold then (none, strings)
      else
        let strings :=
          if env.options.mapStringsToIds then internStrings strings value.strings else strings
        match layout.child? 0 Layout.root with
        | none => (none, strings)
        | some address =>
          match layout.setValue (env.indexResolver strings) value address layout.newBlock with
          | (.ok (), bytes) => (some bytes, strings)
          | (.error _, _) => (none, strings)

/-- Places a constant in the read-only data, if it belongs there, and returns its
offset. -/
def placeConstant (env : LowerEnv) (value : Value) (type : ValueType) : LowerM (Option Nat) :=
  modifyPool fun pool =>
    let (bytes, strings) := env.roBytes value type pool.strings
    let pool := { pool with strings }
    match bytes with
    | none => (none, pool)
    | some bytes => let (offset, pool) := pool.addBytes bytes; (some offset, pool)

/-- The handle of a string: its id, or where its bytes and a closing zero are. -/
def lowerString (env : LowerEnv) (s : String) : LowerM Nat := do
  let handle ←
    if env.options.mapStringsToIds then modifyPool fun pool => pool.intern s
    else do
      noteUsage .roData
      modifyPool fun pool => pool.addBytes (Bytes.ofText s ++ [0])
  emit .string (.int (Int32.ofNat handle))

/-- Reads a compound constant from the read-only data if it is placed there, and puts it
together from its parts otherwise. -/
def lowerCompound (env : LowerEnv) (value : Value) (type : ValueType)
    (parts : LowerM (List Nat)) : LowerM Nat := do
  match ← placeConstant env value type with
  | some offset =>
    noteUsage .roData
    emit type (.roLoad offset)
  | none => emit type (.construct (← parts))

/-- The type of a part of a constant. -/
def partType (type : ValueType) (index : Nat) : Except LowerError ValueType :=
  match type.childType index with
  | some t => .ok t
  | none => .error (.tooManyParts type)

/-- The index of a resource. -/
def lowerResource (env : LowerEnv) (ref : ResourceRef) : LowerM Nat :=
  emit .int (.int (Int32.ofNat (((env.resources.find? ref).map (·.index)).getD 0)))

mutual

/-- The instructions of a literal of a type. -/
def lowerConstant (env : LowerEnv) : Value → ValueType → LowerM Nat
  | .bool b, _ => emit .bool (.bool b)
  | .int n, _ | .enum n, _ => emit .int (.int n)
  | .float x, _ => emit .float (.float x)
  | .double x, _ => emit .double (.double x)
  | .string s, _ => lowerString env s
  | .vector parts, type =>
    lowerCompound env (.vector parts) type (lowerParts env parts type 0)
  | .matrix parts, type =>
    lowerCompound env (.matrix parts) type (lowerParts env parts type 0)
  | .array parts, type =>
    lowerCompound env (.array parts) type (lowerParts env parts type 0)
  | .struct parts, type =>
    lowerCompound env (.struct parts) type (lowerParts env parts type 0)
  | .color r g b, type =>
    lowerCompound env (.color r g b) type do
      let _ ← partType type 2
      return [← emit .float (.float r), ← emit .float (.float g), ← emit .float (.float b)]
  | .texture name _, _ => lowerResource env ⟨.texture, name⟩
  | .lightProfile name, _ => lowerResource env ⟨.lightProfile, name⟩
  | .bsdfMeasurement name, _ => lowerResource env ⟨.bsdfMeasurement, name⟩

/-- The instructions of the parts of a literal of a type, counted from an index. -/
def lowerParts (env : LowerEnv) : List Value → ValueType → (index : Nat) → LowerM (List Nat)
  | [], _, _ => return []
  | v :: rest, type, index => do
    let part ← lowerConstant env v (← partType type index)
    return part :: (← lowerParts env rest type (index + 1))

end

end Shading
