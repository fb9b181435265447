import Shading.Json.Record
import Shading.ValueType.Basic

/-!
# Types as JSON

A type is an object whose member `type` names its constructor.  The types inside a type
may give the number of the constructor instead.

Main definitions:

- `ValueType.toJson` writes a type.
- `ValueType.ofJson?` reads one back.
-/

namespace Shading

namespace Json

/-- A member of a finite named type. -/
def ofNamed {α : Type} [Named α] (a : α) : Json :=
  .string (Named.name a)

/-- Reads a member of a finite named type. -/
def enumIn? {α : Type} [Named α] (reading : Reading) : Json → Option α :=
  named? Named.ofName? reading

/-- Reads a member of a finite named type straight off a document. -/
def enum? {α : Type} [Named α] : Json → Option α :=
  enumIn? .direct

end Json

namespace ValueType

mutual

/-- The type as JSON. -/
def toJson : ValueType → Json
  | .enum name => .object [("type", .string "enum"), ("name", .string name)]
  | .vector element size =>
    .object [("type", .string "vector"), ("element", .ofNamed element), ("size", .ofNat size)]
  | .matrix columns rows =>
    .object [("type", .string "matrix"), ("columns", .ofNat columns), ("rows", .ofNat rows)]
  | .array element size =>
    .object [("type", .string "array"), ("element", element.toJson), ("size", .ofNat size)]
  | .struct name fields =>
    .object [("type", .string "struct"), ("name", .string name),
      ("fields", .array (fieldsToJson fields))]
  | .texture shape => .object [("type", .string "texture"), ("shape", .ofNamed shape)]
  | t => .object [("type", .ofNamed t.kind)]

/-- The fields of a structure as JSON. -/
def fieldsToJson : List (String × ValueType) → List Json
  | [] => []
  | (name, t) :: rest => .object [("name", .string name), ("type", t.toJson)] :: fieldsToJson rest

end

/-- The type without payload that has the given kind. -/
def plain? : ValueKind → Option ValueType
  | .bool => some .bool
  | .int => some .int
  | .float => some .float
  | .double => some .double
  | .string => some .string
  | .color => some .color
  | .lightProfile => some .lightProfile
  | .bsdfMeasurement => some .bsdfMeasurement
  | .bsdf => some .bsdf
  | .edf => some .edf
  | .vdf => some .vdf
  | _ => none

/-- The kinds in the order of their numbers. -/
def numberedKinds : List ValueKind :=
  [.bool, .int, .enum, .float, .double, .string, .vector, .matrix, .color, .array, .struct,
    .texture, .lightProfile, .bsdfMeasurement, .bsdf, .edf, .vdf]

/-- Reads the tag of a type: the name of its kind, or also its number in a kept type. -/
def kindOfTag? : Reading → Json → Option ValueKind
  | _, .string name => Named.ofName? name
  | .kept, tag => do numberedKinds[← tag.nat64?]?
  | .direct, _ => none

/-- Reads a field of a structure, given how its type is read. -/
def fieldOfJson? (read : Json → Option ValueType) (j : Json) : Option (String × ValueType) := do
  let r ← j.record? ["name", "type"]
  return (← r.get? "name" Json.string?, ← r.get? "type" read)

/-- Reads the payload of a type of the given kind, given how the types inside it are
read. -/
def payloadOfJson? (read : Json → Option ValueType) (kind : ValueKind) (payload : Json) :
    Option ValueType :=
  match kind with
  | .enum => do
    let r ← payload.record? ["name"]
    return .enum (← r.get? "name" Json.string?)
  | .vector => do
    let r ← payload.record? ["element", "size"]
    return .vector (← r.get? "element" (Json.enumIn? .kept)) (← r.get? "size" Json.nat8?)
  | .matrix => do
    let r ← payload.record? ["columns", "rows"]
    return .matrix (← r.get? "columns" Json.nat8?) (← r.get? "rows" Json.nat8?)
  | .array => do
    let r ← payload.record? ["element", "size"]
    return .array (← r.get? "element" read) (← r.get? "size" Json.nat32?)
  | .struct => do
    let r ← payload.record? ["name", "fields"]
    return .struct (← r.get? "name" Json.string?)
      (← r.get? "fields" (Json.list? (fieldOfJson? read)))
  | .texture => do
    let r ← payload.record? ["shape"]
    return .texture (← r.get? "shape" (Json.enumIn? .kept))
  | kind => if payload.isVoid then plain? kind else none

/-- Reads a type nested at most `levels` deep. -/
def ofJsonWithin : Reading → (levels : Nat) → Json → Option ValueType
  | _, 0, _ => none
  | reading, levels + 1, j => do
    let (tag, payload) ← j.tagged? "type"
    payloadOfJson? (ofJsonWithin .kept levels) (← kindOfTag? reading tag) payload

/-- Reads a type. -/
def ofJsonIn? (reading : Reading) (j : Json) : Option ValueType :=
  ofJsonWithin reading (j.depth + 1) j

/-- Reads a type straight off a document. -/
def ofJson? (j : Json) : Option ValueType :=
  ofJsonIn? .direct j

end ValueType

end Shading
