import Shading.Code.Artifact

/-!
# Reports

Complete descriptions of layouts, resources, fragments and artifacts as JSON, for
inspection.

Main definitions:

- `Layout.report`, `ResourceEntry.report`, `Fragment.report` and `Artifact.report`.
- `errorReport` describes an error by its kind, its code and its wording.
-/

namespace Shading

/-- An error with its kind, its code and its wording. -/
def errorReport (label : String) (code : Int) (message : String) : Json :=
  .object [("error", .string label), ("code", .ofInt code), ("message", .string message)]

/-- The report of a compile error. -/
def CompileError.report (e : CompileError) : Json :=
  errorReport e.label e.code e.message

/-- The report of a layout error. -/
def LayoutError.report (e : LayoutError) : Json :=
  errorReport e.label e.code e.message

/-- The report of an option error. -/
def OptionError.report (e : OptionError) : Json :=
  errorReport e.label e.code e.message

/-- The report of a description; numbers are given by their bits. -/
def ResourceMeta.report (d : ResourceMeta) : Json :=
  .array (.ofNamed d.kind :: match d with
    | .texture shape width height depth =>
      [.ofNamed shape, .ofNat width, .ofNat height, .ofNat depth]
    | .lightProfile power maximum => [.ofNat power.toBits.toNat, .ofNat maximum.toBits.toNat]
    | .bsdfMeasurement => [])

/-- The report of attributes. -/
def ResourceAttributes.report (a : ResourceAttributes) : Json :=
  .object [("kind", .ofNamed a.description.kind), ("valid", .bool a.valid),
    ("shape", .ofNamed a.shape), ("meta", a.description.report)]

/-- The report of a row of a resource table. -/
def ResourceEntry.report (e : ResourceEntry) : Json :=
  .object [("index", .ofNat e.index), ("name", .string e.name), ("shape", .ofNamed e.shape),
    ("attributes", e.attributes.report)]

/-- The report of a layout node. -/
def LayoutNode.report (n : LayoutNode) : Json :=
  .array [.ofNamed n.kind, .ofNat n.offset, .ofNat n.size, .ofNat n.firstChild,
    .ofNat n.childCount]

/-- The report of a layout. -/
def Layout.report (l : Layout) : Json :=
  .object [("names", .ofList .string l.names), ("nodes", .ofList LayoutNode.report l.nodes.toList),
    ("rules", .ofNamed l.rules), ("size", .ofNat l.size)]

/-- The report of a fragment.  The types of the results are followed by a null. -/
def Fragment.report (f : Fragment) : Json :=
  let types := (List.range (f.rootNodes.length + 1)).map fun i => (f.rootType? i).map ValueType.text
  .object [("name", .string f.name), ("context", .ofNamed f.context),
    ("graph", .string (f.graph.toJson .ofFloat32).text),
    ("roots", .ofOption Fragment.rootsToJson f.roots),
    ("root_nodes", .ofList .ofNat f.rootNodes),
    ("root_types", .ofList (.ofOption .string) types),
    ("parameters", .ofList (fun p : Parameter => .array [.string p.name, .string p.type.text])
      f.parameters),
    ("captures", .bool f.capturesParameters), ("uniform", .bool f.uniform.isSome),
    ("content_hash", .string f.contentHash.hex)]

/-- The report of a code body. -/
def CodeBody.report : CodeBody → Json
  | .native p => .object [("format", .string "native"), ("text", .string p.listing)]
  | .text format s => .object [("format", .ofNamed format), ("text", .string s)]
  | .binary b =>
    .object [("format", .string "binary"), ("header", .string (Bytes.hex (b.take 8))),
      ("payload", .string ((Bytes.text? (b.drop 8)).getD ""))]

/-- The report of an artifact. -/
def Artifact.report (a : Artifact) : Json :=
  let table := fun kind => Json.ofList ResourceEntry.report (a.resources.table kind)
  .object [("target", .ofNamed a.target), ("functions", .ofList FunctionRow.toJson a.functions),
    ("body", a.body.report), ("length", .ofNat a.body.size),
    ("ro_segment", .string (Bytes.hex a.roSegment)), ("strings", .ofList .string a.strings),
    ("layouts", .ofList Layout.report a.layouts),
    ("blocks", .ofList (fun b : Bytes × Nat => .array [.ofNat b.2, .string (Bytes.hex b.1)])
      a.blocks.zipIdx),
    ("textures", table .texture), ("light_profiles", table .lightProfile),
    ("bsdf_measurements", table .bsdfMeasurement),
    ("messages", .ofList Message.toJson a.messages), ("state_usage", .ofNat a.stateUsage.bits)]

end Shading
