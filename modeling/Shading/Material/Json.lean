import Shading.Graph.Json
import Shading.Json.Parser
import Shading.Material.Basic

/-!
# Materials as JSON

Main definitions:

- `Material.toJson` writes a material, `Material.ofJson?` reads one as it stands.
- `Material.load` reads a material and checks it.
-/

namespace Shading

namespace Parameter

/-- The parameter as JSON. -/
def toJson (p : Parameter) : Json :=
  .object [("name", .string p.name), ("type", p.type.toJson), ("value", p.value.toJson .ofFloat32)]

/-- Reads a parameter. -/
def ofJsonIn? (reading : Reading) (j : Json) : Option Parameter := do
  let r ← j.record? ["name", "type", "value"]
  return ⟨← r.get? "name" Json.string?, ← r.get? "type" (ValueType.ofJsonIn? reading),
    ← r.get? "value" (Value.ofJsonIn? reading)⟩

/-- Reads a parameter straight off a document. -/
def ofJson? (j : Json) : Option Parameter :=
  ofJsonIn? .direct j

end Parameter

namespace Material

/-- The fields as JSON. -/
def fieldsToJson (fields : OrderedMap String Nat) : Json :=
  .object (fields.entries.map fun f => (f.1, .ofNat f.2))

/-- Reads the fields; the last one of a path counts. -/
def fieldsOfJson? : Json → Option (OrderedMap String Nat)
  | .object members => do
    return OrderedMap.ofList (← members.mapM fun m => do return (m.1, ← m.2.nat32?))
  | _ => none

/-- The material as JSON. -/
def toJson (m : Material) : Json :=
  .object [("name", .string m.name), ("graph", m.graph.toJson .ofFloat32),
    ("fields", fieldsToJson m.fields), ("parameters", .ofList Parameter.toJson m.parameters)]

/-- Reads a material without checking it. -/
def ofJson? (j : Json) : Option Material := do
  let r ← j.record? ["name", "graph", "fields", "parameters"]
  return ⟨← r.get? "name" Json.string?, ← r.get? "graph" Graph.ofJson?,
    ← r.get? "fields" fieldsOfJson?, ← r.getD? "parameters" (Json.list? Parameter.ofJson?) []⟩

/-- Reads a material and checks it. -/
def load (document : Option Json) : Except (LoadError MaterialError) Material :=
  match document.bind ofJson? with
  | none => .error .json
  | some m =>
    match m.check with
    | .error e => .error (.invalid e)
    | .ok () => .ok m

/-- Reads a material off its text and checks it. -/
def loadText (text : String) : Except (LoadError MaterialError) Material :=
  load (Json.parse? text)

end Material

namespace EnvironmentArgument

/-- Reads an argument of an environment function. -/
def ofJson? (j : Json) : Option EnvironmentArgument := do
  let (kind, payload) ← j.tagged? "kind"
  match ← kind.string? with
  | "constant" => do
    let r ← payload.record? ["value", "type"]
    return .constant (← r.get? "value" (Value.ofJsonIn? .kept))
      (← r.get? "type" (ValueType.ofJsonIn? .kept))
  | "parameter" => do return .parameter (← Parameter.ofJsonIn? .kept payload)
  | _ => none

end EnvironmentArgument

namespace EnvironmentCall

/-- Reads a call of an environment function. -/
def ofJson? (j : Json) : Option EnvironmentCall := do
  let r ← j.record? ["function", "returnType", "arguments"]
  return ⟨← r.get? "function" Json.string?, ← r.get? "returnType" ValueType.ofJson?,
    ← r.getD? "arguments" (Json.list? EnvironmentArgument.ofJson?) []⟩

end EnvironmentCall

end Shading
