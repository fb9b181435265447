/-!
# Types of shading values

The types that nodes of a shading network carry: scalars, compound types built
from them, references to external resources, and distributions.

Main definitions:

- `ValueType` is the type of types, `ValueType.text` its written form.
- `ValueType.childCount` and `ValueType.childType` describe the parts of a compound
  type, `ValueType.kind` its coarse classification.
- `ValueType.storage` is the type in which values are carried once lowered.
-/

namespace Shading

/-! ## Names of finitely many things -/

/-- A finite type whose members have pairwise different names. -/
class Named (α : Type) where
  all : List α
  name : α → String

/-- The member with a given name. -/
def Named.ofName? {α : Type} [Named α] (s : String) : Option α :=
  (Named.all : List α).find? fun a => Named.name a == s

/-! ## Shapes, scalars and kinds -/

/-- The dimensionality of a texture. -/
inductive TextureShape
  | invalid
  | flat
  | volume
  | cube
  | ptex
  deriving Repr, DecidableEq

instance : Named TextureShape where
  all := [.invalid, .flat, .volume, .cube, .ptex]
  name
    | .invalid => "invalid"
    | .flat => "2d"
    | .volume => "3d"
    | .cube => "cube"
    | .ptex => "ptex"

/-- The types of the components of a vector. -/
inductive ScalarType
  | bool
  | int
  | float
  | double
  deriving Repr, DecidableEq

instance : Named ScalarType where
  all := [.bool, .int, .float, .double]
  name
    | .bool => "bool"
    | .int => "int"
    | .float => "float"
    | .double => "double"

/-- The coarse classification of types and values. -/
inductive ValueKind
  | bool
  | int
  | enum
  | float
  | double
  | string
  | vector
  | matrix
  | array
  | color
  | struct
  | texture
  | lightProfile
  | bsdfMeasurement
  | bsdf
  | edf
  | vdf
  deriving Repr, DecidableEq

instance : Named ValueKind where
  all := [.bool, .int, .enum, .float, .double, .string, .vector, .matrix, .array, .color, .struct,
    .texture, .lightProfile, .bsdfMeasurement, .bsdf, .edf, .vdf]
  name
    | .bool => "bool"
    | .int => "int"
    | .enum => "enum"
    | .float => "float"
    | .double => "double"
    | .string => "string"
    | .vector => "vector"
    | .matrix => "matrix"
    | .array => "array"
    | .color => "color"
    | .struct => "struct"
    | .texture => "texture"
    | .lightProfile => "light_profile"
    | .bsdfMeasurement => "bsdf_measurement"
    | .bsdf => "bsdf"
    | .edf => "edf"
    | .vdf => "vdf"

namespace ValueKind

/-- Whether values of the kind have parts. -/
def isCompound : ValueKind → Bool
  | .vector | .matrix | .array | .color | .struct => true
  | _ => false

/-- Whether values of the kind refer to an external resource. -/
def isResource : ValueKind → Bool
  | .texture | .lightProfile | .bsdfMeasurement => true
  | _ => false

/-- The kind as it is named in diagnostics. -/
def label : ValueKind → String
  | .bool => "Bool"
  | .int => "Int"
  | .enum => "Enum"
  | .float => "Float"
  | .double => "Double"
  | .string => "String"
  | .vector => "Vector"
  | .matrix => "Matrix"
  | .array => "Array"
  | .color => "Color"
  | .struct => "Struct"
  | .texture => "Texture"
  | .lightProfile => "LightProfile"
  | .bsdfMeasurement => "BsdfMeasurement"
  | .bsdf => "Bsdf"
  | .edf => "Edf"
  | .vdf => "Vdf"

end ValueKind

/-! ## Types -/

/-- The type of a shading value. -/
inductive ValueType
  | bool
  | int
  | enum (name : String)
  | float
  | double
  | string
  | vector (element : ScalarType) (size : Nat)
  | matrix (columns rows : Nat)
  | color
  | array (element : ValueType) (size : Nat)
  | struct (name : String) (fields : List (String × ValueType))
  | texture (shape : TextureShape)
  | lightProfile
  | bsdfMeasurement
  | bsdf
  | edf
  | vdf
  deriving Repr, Inhabited

namespace ValueType

mutual

/-- Decides whether two types are equal. -/
def decideEq (a b : ValueType) : Decidable (a = b) := by
  cases a <;> cases b <;>
    first
    | exact isTrue rfl
    | exact isFalse (fun h => ValueType.noConfusion h)
    | rename_i e n e' n'
      exact match decideEq e e', decEq n n' with
        | isTrue h, isTrue k => isTrue (h ▸ k ▸ rfl)
        | isFalse h, _ => isFalse (fun e => h (ValueType.array.inj e).1)
        | _, isFalse h => isFalse (fun e => h (ValueType.array.inj e).2)
    | rename_i s fs s' fs'
      exact match decEq s s', decideEqFields fs fs' with
        | isTrue h, isTrue k => isTrue (h ▸ k ▸ rfl)
        | isFalse h, _ => isFalse (fun e => h (ValueType.struct.inj e).1)
        | _, isFalse h => isFalse (fun e => h (ValueType.struct.inj e).2)
    | exact decidable_of_iff _ (Iff.of_eq (ValueType.enum.injEq ..).symm)
    | exact decidable_of_iff _ (Iff.of_eq (ValueType.vector.injEq ..).symm)
    | exact decidable_of_iff _ (Iff.of_eq (ValueType.matrix.injEq ..).symm)
    | exact decidable_of_iff _ (Iff.of_eq (ValueType.texture.injEq ..).symm)

/-- Decides whether two field lists are equal. -/
def decideEqFields : (a b : List (String × ValueType)) → Decidable (a = b)
  | [], [] => isTrue rfl
  | [], _ :: _ => isFalse nofun
  | _ :: _, [] => isFalse nofun
  | (s, t) :: fs, (s', t') :: fs' =>
    match decEq s s', decideEq t t', decideEqFields fs fs' with
    | isTrue h, isTrue k, isTrue l => isTrue (h ▸ k ▸ l ▸ rfl)
    | isFalse h, _, _ => isFalse (fun e => h (Prod.mk.inj (List.cons.inj e).1).1)
    | _, isFalse h, _ => isFalse (fun e => h (Prod.mk.inj (List.cons.inj e).1).2)
    | _, _, isFalse h => isFalse (fun e => h (List.cons.inj e).2)

end

/-- The type of one component of a vector. -/
def ofScalar : ScalarType → ValueType
  | .bool => .bool
  | .int => .int
  | .float => .float
  | .double => .double

/-- The kind of a type. -/
def kind : ValueType → ValueKind
  | .bool => .bool
  | .int => .int
  | .enum _ => .enum
  | .float => .float
  | .double => .double
  | .string => .string
  | .vector .. => .vector
  | .matrix .. => .matrix
  | .color => .color
  | .array .. => .array
  | .struct .. => .struct
  | .texture _ => .texture
  | .lightProfile => .lightProfile
  | .bsdfMeasurement => .bsdfMeasurement
  | .bsdf => .bsdf
  | .edf => .edf
  | .vdf => .vdf

-- Types of different kinds are told apart without looking at their parts.
instance : DecidableEq ValueType := fun a b =>
  if h : a.kind = b.kind then decideEq a b else isFalse fun e => h (congrArg kind e)

/-- The written form of a type. -/
def text : ValueType → String
  | .bool => "bool"
  | .int => "int"
  | .enum name => "enum " ++ name
  | .float => "float"
  | .double => "double"
  | .string => "string"
  | .vector element size => Named.name element ++ toString size
  | .matrix columns rows => "float" ++ toString columns ++ "x" ++ toString rows
  | .color => "color"
  | .array element size => element.text ++ "[" ++ toString size ++ "]"
  | .struct name _ => "struct " ++ name
  | .texture shape => "texture_" ++ Named.name shape
  | .lightProfile => "light_profile"
  | .bsdfMeasurement => "bsdf_measurement"
  | .bsdf => "bsdf"
  | .edf => "edf"
  | .vdf => "vdf"

/-- Whether the type is a distribution. -/
def isDistribution : ValueType → Bool
  | .bsdf | .edf | .vdf => true
  | _ => false

/-- Whether the type refers to an external resource. -/
def isResource (t : ValueType) : Bool :=
  t.kind.isResource

mutual

/-- The first distribution inside a type, in declaration order. -/
def distribution? : ValueType → Option ValueType
  | .bsdf => some .bsdf
  | .edf => some .edf
  | .vdf => some .vdf
  | .array element _ => element.distribution?
  | .struct _ fields => distributionField? fields
  | _ => none

/-- The first distribution inside the types of a field list. -/
def distributionField? : List (String × ValueType) → Option ValueType
  | [] => none
  | (_, t) :: rest =>
    match t.distribution? with
    | some d => some d
    | none => distributionField? rest

end

/-- Whether a distribution occurs anywhere inside the type. -/
def containsDistribution (t : ValueType) : Bool :=
  t.distribution?.isSome

/-- Whether the type is the result of a texture-based environment function. -/
def isTextureReturn : ValueType → Bool
  | .struct name _ => name == "texture_return"
  | _ => false

/-! ## Parts of a type -/

/-- The number of parts. -/
def childCount : ValueType → Nat
  | .vector _ size => size
  | .matrix columns _ => columns
  | .color => 3
  | .array _ size => size
  | .struct _ fields => fields.length
  | _ => 0

/-- The type of a part. -/
def childType (t : ValueType) (index : Nat) : Option ValueType :=
  match t with
  | .vector element size => if index < size then some (ofScalar element) else none
  | .matrix columns rows => if index < columns then some (.vector .float rows) else none
  | .color => if index < 3 then some .float else none
  | .array element size => if index < size then some element else none
  | .struct _ fields => fields[index]?.map (·.2)
  | _ => none

/-! ## Storage -/

mutual

/-- The type in which values are carried once lowered: enumerations and resources
become integers, at every depth. -/
def storage : ValueType → ValueType
  | .enum _ | .texture _ | .lightProfile | .bsdfMeasurement => .int
  | .array element size => .array element.storage size
  | .struct name fields => .struct name (storageFields fields)
  | t => t

/-- The types in which the fields are carried. -/
def storageFields : List (String × ValueType) → List (String × ValueType)
  | [] => []
  | (name, t) :: rest => (name, t.storage) :: storageFields rest

end

end ValueType

end Shading
