import Shading.Bytes
import Shading.Program.Basic

/-!
# Programs as JSON

Main definitions:

- `Program.toJson` and `Routine.toJson` write programs and routines.
- `Program.ofJson?` and `Routine.ofJson?` read them.
-/

namespace Shading

namespace Op

/-- A list of ids as JSON. -/
def idsToJson (ids : List Nat) : Json :=
  .ofList .ofNat ids

/-- The operation as JSON: its name with its payload. -/
def toJson (op : Op) : Json :=
  match op with
  | .bool b => .object [("bool", .bool b)]
  | .int n => .object [("int", .ofInt32 n)]
  | .float x => .object [("float", .ofFloat32 x)]
  | .double x => .object [("double", .ofFloat x)]
  | .roLoad offset => .object [("ro_load", .object [("offset", .ofNat offset)])]
  | .argLoad block offset =>
    .object [("arg_load", .object [("block", .ofNat block), ("offset", .ofNat offset)])]
  | .construct args => .object [("construct", idsToJson args)]
  | .extract value index =>
    .object [("extract", .object [("value", .ofNat value), ("index", .ofNat index)])]
  | .unary op a => .object [("unary", .array [.ofNamed op, .ofNat a])]
  | .binary op a b => .object [("binary", .array [.ofNamed op, .ofNat a, .ofNat b])]
  | .ternary op a b c =>
    .object [("ternary", .array [.ofNamed op, .ofNat a, .ofNat b, .ofNat c])]
  | .state field => .object [("state", .ofNamed field)]
  | .textureCoordinate index => .object [("texture_coordinate", .ofNat index)]
  | .textureResult index => .object [("texture_result", .ofNat index)]
  | .runtimeCall name args =>
    .object [("runtime_call", .object [("name", .string name), ("args", idsToJson args)])]

/-- Reads an operation. -/
def ofJson? (j : Json) : Option Op := do
  let (name, payload) ← j.choice?
  match name with
  | "bool" => return .bool (← payload.bool?)
  | "int" => return .int (← payload.int32?)
  | "float" => return .float (← payload.float32?)
  | "double" => return .double (← payload.float?)
  | "ro_load" =>
    let r ← payload.record? ["offset"]
    return .roLoad (← r.get? "offset" Json.nat32?)
  | "arg_load" =>
    let r ← payload.record? ["block", "offset"]
    return .argLoad (← r.get? "block" Json.nat32?) (← r.get? "offset" Json.nat32?)
  | "construct" => return .construct (← payload.list? Json.nat32?)
  | "extract" =>
    let r ← payload.record? ["value", "index"]
    return .extract (← r.get? "value" Json.nat32?) (← r.get? "index" Json.nat32?)
  | "unary" =>
    match ← payload.array? with
    | [op, a] => return .unary (← op.enum?) (← a.nat32?)
    | _ => none
  | "binary" =>
    match ← payload.array? with
    | [op, a, b] => return .binary (← op.enum?) (← a.nat32?) (← b.nat32?)
    | _ => none
  | "ternary" =>
    match ← payload.array? with
    | [op, a, b, c] => return .ternary (← op.enum?) (← a.nat32?) (← b.nat32?) (← c.nat32?)
    | _ => none
  | "state" => return .state (← payload.enum?)
  | "texture_coordinate" => return .textureCoordinate (← payload.nat32?)
  | "texture_result" => return .textureResult (← payload.nat32?)
  | "runtime_call" =>
    let r ← payload.record? ["name", "args"]
    return .runtimeCall (← r.get? "name" Json.string?) (← r.get? "args" (Json.list? Json.nat32?))
  | _ => none

end Op

namespace Instr

/-- The instruction as JSON. -/
def toJson (i : Instr) : Json :=
  .object [("type", i.type.toJson), ("op", i.op.toJson)]

/-- Reads an instruction. -/
def ofJson? (j : Json) : Option Instr := do
  let r ← j.record? ["type", "op"]
  return ⟨← r.get? "type" ValueType.ofJson?, ← r.get? "op" Op.ofJson?⟩

end Instr

namespace Routine

/-- A store as JSON: the slot and the stored instruction. -/
def storeToJson (s : Nat × Nat) : Json :=
  .array [.ofNat s.1, .ofNat s.2]

/-- Reads a store. -/
def storeOfJson? : Json → Option (Nat × Nat)
  | .array [slot, id] => do return (← slot.nat32?, ← id.nat32?)
  | _ => none

/-- The routine as JSON. -/
def toJson (r : Routine) : Json :=
  .object [("name", .string r.name), ("kind", .ofNamed r.kind), ("context", .ofNamed r.context),
    ("arg_block", .ofOption .ofNat r.argBlock), ("body", .ofList Instr.toJson r.body.toList),
    ("results", .ofList .ofNat r.results), ("stores", .ofList storeToJson r.stores)]

/-- Reads a routine. -/
def ofJson? (j : Json) : Option Routine := do
  let r ← j.record? ["name", "kind", "context", "arg_block", "body", "results", "stores"]
  return ⟨← r.get? "name" Json.string?, ← r.get? "kind" Json.enum?, ← r.get? "context" Json.enum?,
    ← r.option? "arg_block" Json.nat32?, (← r.get? "body" (Json.list? Instr.ofJson?)).toArray,
    ← r.get? "results" (Json.list? Json.nat32?), ← r.get? "stores" (Json.list? storeOfJson?)⟩

end Routine

namespace ArgBlock

/-- The argument block as JSON. -/
def toJson (b : ArgBlock) : Json :=
  .object [("names", .ofList .string b.names), ("types", .ofList ValueType.toJson b.types)]

/-- Reads an argument block. -/
def ofJson? (j : Json) : Option ArgBlock := do
  let r ← j.record? ["names", "types"]
  return ⟨← r.get? "names" (Json.list? Json.string?),
    ← r.get? "types" (Json.list? ValueType.ofJson?)⟩

end ArgBlock

namespace Program

/-- The program as JSON. -/
def toJson (p : Program) : Json :=
  .object [("functions", .ofList Routine.toJson p.routines),
    ("ro_segment", .ofList (fun b => .ofNat b.toNat) p.roSegment),
    ("strings", .ofList .string p.strings), ("arg_blocks", .ofList ArgBlock.toJson p.argBlocks),
    ("state_usage", .ofNat p.stateUsage.bits),
    ("num_texture_spaces", .ofNat p.numTextureSpaces),
    ("num_texture_results", .ofNat p.numTextureResults)]

/-- Reads a program. -/
def ofJson? (j : Json) : Option Program := do
  let r ← j.record? ["functions", "ro_segment", "strings", "arg_blocks", "state_usage",
    "num_texture_spaces", "num_texture_results"]
  return ⟨← r.get? "functions" (Json.list? Routine.ofJson?),
    (← r.get? "ro_segment" (Json.list? Json.nat8?)).map UInt8.ofNat,
    ← r.get? "strings" (Json.list? Json.string?),
    ← r.get? "arg_blocks" (Json.list? ArgBlock.ofJson?),
    ⟨← r.get? "state_usage" Json.nat32?⟩, ← r.get? "num_texture_spaces" Json.nat32?,
    ← r.get? "num_texture_results" Json.nat32?⟩

end Program

end Shading
