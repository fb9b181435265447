import Shading.ValueType.Basic

/-!
# Shading values

Literal values, the check that a literal inhabits a type, and the walk through the
parts of a literal.

Main definitions:

- `Value` is the type of literals, `Value.kind` and `Value.children` describe one.
- `Value.conformsTo` checks a literal against a type.
- `Value.flatten` lists a literal and everything inside it, parents first.
- `ResourceRef` names an external resource, and `Value.resource?` is the reference
  in a resource literal.
-/

namespace Shading

/-- The kinds of external resources. -/
inductive ResourceKind
  | texture
  | lightProfile
  | bsdfMeasurement
  deriving Repr, DecidableEq

instance : Named ResourceKind where
  all := [.texture, .lightProfile, .bsdfMeasurement]
  name
    | .texture => "texture"
    | .lightProfile => "light_profile"
    | .bsdfMeasurement => "bsdf_measurement"

/-- The position of a kind among the resource tables. -/
def ResourceKind.slot : ResourceKind → Nat
  | .texture => 0
  | .lightProfile => 1
  | .bsdfMeasurement => 2

/-- A reference to a resource.  A reference that never had a name is invalid. -/
structure ResourceRef where
  kind : ResourceKind
  name : Option String
  deriving Repr, DecidableEq

/-- A literal value. -/
inductive Value
  | bool (b : Bool)
  | int (n : Int32)
  | enum (n : Int32)
  | float (x : Float32)
  | double (x : Float)
  | string (s : String)
  | vector (parts : List Value)
  | matrix (parts : List Value)
  | color (r g b : Float32)
  | array (parts : List Value)
  | struct (parts : List Value)
  | texture (name : Option String) (shape : TextureShape)
  | lightProfile (name : Option String)
  | bsdfMeasurement (name : Option String)
  deriving Inhabited

namespace Value

/-- The kind of a literal. -/
def kind : Value → ValueKind
  | .bool _ => .bool
  | .int _ => .int
  | .enum _ => .enum
  | .float _ => .float
  | .double _ => .double
  | .string _ => .string
  | .vector _ => .vector
  | .matrix _ => .matrix
  | .color .. => .color
  | .array _ => .array
  | .struct _ => .struct
  | .texture .. => .texture
  | .lightProfile _ => .lightProfile
  | .bsdfMeasurement _ => .bsdfMeasurement

/-- The parts of a literal.  The parts of a color are floats. -/
def children : Value → List Value
  | .vector parts | .matrix parts | .array parts | .struct parts => parts
  | .color r g b => [.float r, .float g, .float b]
  | _ => []

/-- The resource that a resource literal refers to. -/
def resource? : Value → Option ResourceRef
  | .texture name _ => some ⟨.texture, name⟩
  | .lightProfile name => some ⟨.lightProfile, name⟩
  | .bsdfMeasurement name => some ⟨.bsdfMeasurement, name⟩
  | _ => none

/-! ## Conformance -/

mutual

/-- Whether a literal inhabits a type: the kinds agree, and a compound literal has
as many parts as the type, each of which inhabits the part's type. -/
def conformsTo : Value → ValueType → Bool
  | .bool _, .bool => true
  | .int _, .int => true
  | .enum _, .enum _ => true
  | .float _, .float => true
  | .double _, .double => true
  | .string _, .string => true
  | .vector parts, .vector element size =>
    parts.length == size && allConformTo parts (ValueType.ofScalar element)
  | .matrix parts, .matrix columns rows =>
    parts.length == columns && allConformTo parts (.vector .float rows)
  | .color .., .color => true
  | .array parts, .array element size => parts.length == size && allConformTo parts element
  | .struct parts, .struct _ fields => eachConformsTo parts fields
  | .texture .., .texture _ => true
  | .lightProfile _, .lightProfile => true
  | .bsdfMeasurement _, .bsdfMeasurement => true
  | _, _ => false

/-- Whether all literals of a list inhabit one type. -/
def allConformTo : List Value → ValueType → Bool
  | [], _ => true
  | v :: rest, t => v.conformsTo t && allConformTo rest t

/-- Whether the literals of a list inhabit the types of a field list, one each. -/
def eachConformsTo : List Value → List (String × ValueType) → Bool
  | [], [] => true
  | v :: rest, (_, t) :: fields => v.conformsTo t && eachConformsTo rest fields
  | _, _ => false

end

/-! ## Walk -/

mutual

/-- The literal and everything inside it, parents first.  A color counts as one
literal. -/
def flatten : Value → List Value
  | .vector parts => .vector parts :: flattenAll parts
  | .matrix parts => .matrix parts :: flattenAll parts
  | .array parts => .array parts :: flattenAll parts
  | .struct parts => .struct parts :: flattenAll parts
  | v => [v]

/-- The literals of a list and everything inside them. -/
def flattenAll : List Value → List Value
  | [] => []
  | v :: rest => v.flatten ++ flattenAll rest

end

/-- The strings inside a literal, in order. -/
def strings (v : Value) : List String :=
  v.flatten.filterMap fun
    | .string s => some s
    | _ => none

theorem mem_strings {v : Value} {s : String} : s ∈ v.strings ↔ .string s ∈ v.flatten := by
  unfold strings
  rw [List.mem_filterMap]
  constructor
  · rintro ⟨w, hw, hs⟩
    split at hs
    · cases hs
      exact hw
    · cases hs
  · intro h
    exact ⟨_, h, rfl⟩

/-- The resource references inside a literal, in order. -/
def resources (v : Value) : List ResourceRef :=
  v.flatten.filterMap resource?

end Value

end Shading
