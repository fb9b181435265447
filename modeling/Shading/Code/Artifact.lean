import Shading.Code.Body
import Shading.Diagnostic
import Shading.Layout.Block
import Shading.Lowering.Pool
import Shading.Resource.Registry

/-!
# Artifacts

What a compile hands out: the code, the table of its functions, the layouts of their
argument blocks, the resource tables, and argument blocks filled with the values that
the parameters had.

Main definitions:

- `CodeParts` is what a compile produces, `Artifact.assemble` fills the blocks.
- `Artifact.createBlock` fills a block with other values.
- `Artifact.summary` is an overview as JSON.
-/

namespace Shading

/-- A row of the function table. -/
structure FunctionRow where
  name : String
  kind : FunctionKind
  argBlock : Option Nat
  prototype : String
  deriving Repr, DecidableEq

/-- The row as JSON. -/
def FunctionRow.toJson (f : FunctionRow) : Json :=
  .object [("name", .string f.name), ("kind", .ofNamed f.kind),
    ("arg_block_index", .ofOption .ofNat f.argBlock), ("prototype", .string f.prototype)]

/-- What a compile produces, argument blocks apart. -/
structure CodeParts where
  target : TargetKind
  functions : List FunctionRow
  body : CodeBody
  roSegment : Bytes
  strings : List String
  stringsMapped : Bool
  layouts : List Layout
  resources : ResourceTables
  messages : List Message
  stateUsage : StateUsage
  deriving DecidableEq

/-- How references in arguments are resolved: resources by the tables, and strings by
their ids if strings have ids. -/
def CodeParts.indexResolver (p : CodeParts) : IndexResolver where
  resourceIndex ref :=
    match ref.name with
    | none => 0
    | some name => (p.resources.indexOf? ref.kind name).getD 0
  stringIndex s := if p.stringsMapped then stringId? p.strings s else none

/-- A finished compile. -/
structure Artifact extends CodeParts where
  blocks : List Bytes
  deriving DecidableEq

namespace Artifact

/-- The block of a layout, and a warning for every value that could not be packed. -/
def fillBlock (p : CodeParts) (index : Nat) (layout : Layout) (values : List Value) :
    List Message × Bytes :=
  let (failed, block) := layout.fillPartial p.indexResolver values layout.newBlock
  let warnings := failed.map fun (parameter, e) =>
    let name := layout.names[parameter]?.getD "?"
    .warning (s!"argument '{name}' of block {index} left zeroed: " ++ e.message)
  (warnings, block)

/-- Fills one block for every layout.  A value that cannot be packed stays zero and
leaves a warning. -/
def assemble (p : CodeParts) (values : List (List Value)) : Artifact :=
  let filled := p.layouts.zipIdx.map fun l => fillBlock p l.2 l.1 (values[l.2]?.getD [])
  { p with
    messages := p.messages ++ filled.flatMap (·.1)
    blocks := filled.map (·.2) }

/-- The row of a function. -/
def function? (a : Artifact) (name : String) : Option FunctionRow :=
  a.functions.find? fun f => f.name == name

/-- A new block for a layout, filled with values. -/
def createBlock (a : Artifact) (index : Nat) (values : List Value) : Except LayoutError Bytes :=
  match a.layouts[index]? with
  | none => .error .invalidAddress
  | some layout =>
    match layout.fill a.indexResolver values layout.newBlock with
    | (.ok (), block) => .ok block
    | (.error e, _) => .error e

/-- A resource table in the overview. -/
def tableSummary (a : Artifact) (kind : ResourceKind) : Json :=
  .ofList (fun e : ResourceEntry => .object [("index", .ofNat e.index), ("name", .string e.name),
    ("shape", .ofNamed e.shape)]) (a.resources.table kind)

/-- An overview of functions and resources, with sorted keys. -/
def summary (a : Artifact) : Json :=
  .sortKeys <| .object [
    ("target", .ofNamed a.target),
    ("functions", .ofList FunctionRow.toJson a.functions),
    ("ro_segment_size", .ofNat a.roSegment.length),
    ("string_constants", .ofList .string a.strings),
    ("layouts", .ofList (fun l : Layout => .ofNat l.size) a.layouts),
    ("textures", a.tableSummary .texture),
    ("light_profiles", a.tableSummary .lightProfile),
    ("bsdf_measurements", a.tableSummary .bsdfMeasurement),
    ("messages", .ofList Message.toJson a.messages)]

end Artifact

end Shading
