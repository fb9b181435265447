import Shading.Graph.Basic
import Shading.Value.Json

/-!
# Expression graphs as JSON

A graph is an array of nodes; the member `kind` of a node's operation says what the
node computes.

Main definitions:

- `Graph.toJson` and `Node.toJson` write graphs and nodes.
- `Graph.ofJson?` and `Node.ofJson?` read them, without checking them.
-/

namespace Shading

namespace NodeOp

/-- The operation as JSON. -/
def toJson (single : Float32 → Json) : NodeOp → Json
  | .constant value => .object [("kind", .string "constant"), ("value", value.toJson single)]
  | .parameter index => .object [("kind", .string "parameter"), ("index", .ofNat index)]
  | .call name args =>
    .object [("kind", .string "call"), ("name", .string name), ("args", .ofList .ofNat args)]
  | .lambdaResult index => .object [("kind", .string "lambda_result"), ("index", .ofNat index)]

/-- Reads an operation. -/
def ofJson? (j : Json) : Option NodeOp := do
  let (kind, payload) ← j.tagged? "kind"
  match ← kind.string? with
  | "constant" => do
    let r ← payload.record? ["value"]
    return .constant (← r.get? "value" (Value.ofJsonIn? .kept))
  | "parameter" => do
    let r ← payload.record? ["index"]
    return .parameter (← r.get? "index" Json.nat64?)
  | "call" => do
    let r ← payload.record? ["name", "args"]
    return .call (← r.get? "name" Json.string?) (← r.get? "args" (Json.list? Json.nat32?))
  | "lambda_result" => do
    let r ← payload.record? ["index"]
    return .lambdaResult (← r.get? "index" Json.nat64?)
  | _ => none

end NodeOp

namespace Node

/-- The node as JSON. -/
def toJson (single : Float32 → Json) (n : Node) : Json :=
  .object [("op", n.op.toJson single), ("type", n.type.toJson)]

/-- Reads a node. -/
def ofJson? (j : Json) : Option Node := do
  let r ← j.record? ["op", "type"]
  return ⟨← r.get? "op" NodeOp.ofJson?, ← r.get? "type" ValueType.ofJson?⟩

end Node

namespace Graph

/-- The graph as JSON. -/
def toJson (single : Float32 → Json) (g : Graph) : Json :=
  .ofList (Node.toJson single) g.nodes.toList

/-- Reads a graph. -/
def ofJson? (j : Json) : Option Graph := do
  return ⟨(← j.list? Node.ofJson?).toArray⟩

end Graph

end Shading
