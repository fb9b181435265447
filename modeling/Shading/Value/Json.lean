import Shading.Value.Basic
import Shading.ValueType.Json

/-!
# Values as JSON

A literal is an object with its kind under `kind` and its content under `value`.  Content
that comes before its kind is kept until the kind is known.

Main definitions:

- `Value.toJson` writes a literal; how numbers of the 32-bit format are written is
  for the caller to say.
- `Value.ofJson?` reads a literal.
-/

namespace Shading

namespace Value

/-- A literal of the given kind and content. -/
def wrap (kind : ValueKind) (content : Json) : Json :=
  .object [("kind", .ofNamed kind), ("value", content)]

/-- A name that may be missing. -/
def nameToJson (name : Option String) : Json :=
  .ofOption .string name

mutual

/-- The literal as JSON. -/
def toJson (single : Float32 → Json) : Value → Json
  | .bool b => wrap .bool (.bool b)
  | .int n => wrap .int (.ofInt32 n)
  | .enum n => wrap .enum (.ofInt32 n)
  | .float x => wrap .float (single x)
  | .double x => wrap .double (.ofFloat x)
  | .string s => wrap .string (.string s)
  | .vector parts => wrap .vector (.array (partsToJson single parts))
  | .matrix parts => wrap .matrix (.array (partsToJson single parts))
  | .color r g b => wrap .color (.array [single r, single g, single b])
  | .array parts => wrap .array (.array (partsToJson single parts))
  | .struct parts => wrap .struct (.array (partsToJson single parts))
  | .texture name shape =>
    wrap .texture (.object [("name", nameToJson name), ("shape", .ofNamed shape)])
  | .lightProfile name => wrap .lightProfile (.object [("name", nameToJson name)])
  | .bsdfMeasurement name => wrap .bsdfMeasurement (.object [("name", nameToJson name)])

/-- The parts of a compound literal as JSON. -/
def partsToJson (single : Float32 → Json) : List Value → List Json
  | [] => []
  | v :: rest => v.toJson single :: partsToJson single rest

end

/-- Reads the three components of a color. -/
def colorOfJson? (j : Json) : Option Value := do
  match ← j.list? Json.float32? with
  | [r, g, b] => return .color r g b
  | _ => none

/-- Reads the name member of a resource literal, which may be absent or null. -/
def nameOfRecord? (r : Record) : Option (Option String) :=
  r.option? "name" Json.string?

/-- Reads the content of a literal of the given kind, given how the parts of compound
literals are read. -/
def contentOfJson? (reading : Reading) (read : Json → Option Value) (kind : ValueKind)
    (content : Json) : Option Value :=
  match kind with
  | .bool => content.bool?.map .bool
  | .int => content.int32?.map .int
  | .enum => content.int32?.map .enum
  | .float => content.float32?.map .float
  | .double => content.float?.map .double
  | .string => content.string?.map .string
  | .vector => (content.list? read).map .vector
  | .matrix => (content.list? read).map .matrix
  | .color => colorOfJson? content
  | .array => (content.list? read).map .array
  | .struct => (content.list? read).map .struct
  | .texture => do
    let r ← content.keyed? ["name", "shape"]
    return .texture (← nameOfRecord? r) (← r.get? "shape" (Json.enumIn? reading))
  | .lightProfile => do return .lightProfile (← nameOfRecord? (← content.keyed? ["name"]))
  | .bsdfMeasurement => do return .bsdfMeasurement (← nameOfRecord? (← content.keyed? ["name"]))
  | .bsdf | .edf | .vdf => none

/-- Reads a literal nested at most `levels` deep. -/
def ofJsonWithin : Reading → (levels : Nat) → Json → Option Value
  | _, 0, _ => none
  | reading, levels + 1, j => do
    let r ← j.record? ["kind", "value"]
    let kind ← r.get? "kind" (Json.enumIn? reading)
    if r.startsWith "value" then
      contentOfJson? .kept (ofJsonWithin .kept levels) kind (← r.get? "value" Json.keep?)
    else
      contentOfJson? reading (ofJsonWithin reading levels) kind (← r.find? "value")

/-- Reads a literal. -/
def ofJsonIn? (reading : Reading) (j : Json) : Option Value :=
  ofJsonWithin reading (j.depth + 1) j

/-- Reads a literal straight off a document. -/
def ofJson? (j : Json) : Option Value :=
  ofJsonIn? .direct j

end Value

end Shading
