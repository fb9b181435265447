import Shading.Json.Parser
import Shading.OrderedMap
import Shading.Value.Json

/-!
# Resources and the asset store

What is known of an external resource, and the store that knows it.  A name that the
store does not hold is an invalid resource.

Main definitions:

- `ResourceAttributes` says whether a resource is valid and describes it.
- `AssetStore` holds the attributes by kind and name; `AssetStore.attributes` answers
  for every name.
- `AssetStore.ofJson?` reads an asset list.
- `ResourceMap` holds the indices and attributes of the resources of one fragment.
-/

namespace Shading

/-- The description of a resource. -/
inductive ResourceMeta
  | texture (shape : TextureShape) (width height depth : Nat)
  | lightProfile (power maximum : Float32)
  | bsdfMeasurement
  deriving DecidableEq

/-- The kind of resource that is described. -/
def ResourceMeta.kind : ResourceMeta → ResourceKind
  | .texture .. => .texture
  | .lightProfile .. => .lightProfile
  | .bsdfMeasurement => .bsdfMeasurement

/-- What a store reports of a resource. -/
structure ResourceAttributes where
  valid : Bool
  description : ResourceMeta
  deriving DecidableEq

namespace ResourceAttributes

/-- The attributes of a resource that could not be found. -/
def invalid : ResourceKind → ResourceAttributes
  | .texture => ⟨false, .texture .invalid 0 0 0⟩
  | .lightProfile => ⟨false, .lightProfile 0 0⟩
  | .bsdfMeasurement => ⟨false, .bsdfMeasurement⟩

/-- The shape of a valid texture; everything else has the invalid shape. -/
def shape (a : ResourceAttributes) : TextureShape :=
  match a.description with
  | .texture shape .. => if a.valid then shape else .invalid
  | _ => .invalid

end ResourceAttributes

namespace ResourceRef

/-- References are ordered by kind, then by name, those without a name first. -/
def before (a b : ResourceRef) : Bool :=
  if a.kind = b.kind then
    match a.name, b.name with
    | none, some _ => true
    | some x, some y => decide (x < y)
    | _, none => false
  else decide (a.kind.slot < b.kind.slot)

instance : LT ResourceRef where
  lt a b := a.before b = true

instance : DecidableLT ResourceRef :=
  fun a b => inferInstanceAs (Decidable (a.before b = true))

end ResourceRef

/-! ## The store -/

/-- The attributes of the resources that are known, by kind and name. -/
structure AssetStore where
  assets : OrderedMap ResourceRef ResourceAttributes

namespace AssetStore

/-- The store that knows no resource. -/
def empty : AssetStore :=
  ⟨OrderedMap.empty⟩

/-- The number of known resources. -/
def size (s : AssetStore) : Nat :=
  s.assets.size

/-- Whether a resource is known. -/
def contains (s : AssetStore) (kind : ResourceKind) (name : String) : Bool :=
  s.assets.contains ⟨kind, some name⟩

/-- The attributes of a known resource. -/
def find? (s : AssetStore) (kind : ResourceKind) (name : String) : Option ResourceAttributes :=
  s.assets.find? ⟨kind, some name⟩

/-- The attributes of a resource; one that is not known is invalid. -/
def attributes (s : AssetStore) (kind : ResourceKind) (name : String) : ResourceAttributes :=
  (s.find? kind name).getD (.invalid kind)

/-- Makes a resource known, or describes a known one anew. -/
def insert (s : AssetStore) (kind : ResourceKind) (name : String) (a : ResourceAttributes) :
    AssetStore :=
  ⟨s.assets.insert ⟨kind, some name⟩ a⟩

/-- Forgets a resource. -/
def erase (s : AssetStore) (kind : ResourceKind) (name : String) : AssetStore :=
  ⟨s.assets.erase ⟨kind, some name⟩⟩

end AssetStore

/-! ## Bindings -/

/-- The index by which code refers to a resource, and what is known of it. -/
structure ResourceBinding where
  index : Nat
  attributes : ResourceAttributes
  deriving DecidableEq

/-- The resources of one fragment. -/
abbrev ResourceMap := OrderedMap ResourceRef ResourceBinding

/-! ## JSON -/

namespace ResourceMeta

/-- The description as JSON. -/
def toJson : ResourceMeta → Json
  | .texture shape width height depth =>
    .object [("kind", .string "texture"), ("shape", .ofNamed shape), ("width", .ofNat width),
      ("height", .ofNat height), ("depth", .ofNat depth)]
  | .lightProfile power maximum =>
    .object [("kind", .string "light_profile"), ("power", .ofFloat32 power),
      ("maximum", .ofFloat32 maximum)]
  | .bsdfMeasurement => .object [("kind", .string "bsdf_measurement")]

/-- Reads a description. -/
def ofJson? (j : Json) : Option ResourceMeta := do
  let (name, payload) ← j.tagged? "kind"
  match (← Named.ofName? (← name.string?) : ResourceKind) with
  | .texture => do
    let r ← payload.record? ["shape", "width", "height", "depth"]
    return .texture (← r.get? "shape" (Json.enumIn? .kept)) (← r.get? "width" Json.nat32?)
      (← r.get? "height" Json.nat32?) (← r.get? "depth" Json.nat32?)
  | .lightProfile => do
    let r ← payload.record? ["power", "maximum"]
    return .lightProfile (← r.get? "power" Json.float32?) (← r.get? "maximum" Json.float32?)
  | .bsdfMeasurement => if payload.isVoid then some .bsdfMeasurement else none

end ResourceMeta

namespace ResourceAttributes

/-- The attributes as JSON. -/
def toJson (a : ResourceAttributes) : Json :=
  .object [("valid", .bool a.valid), ("meta", a.description.toJson)]

/-- Reads attributes. -/
def ofJson? (j : Json) : Option ResourceAttributes := do
  let r ← j.record? ["valid", "meta"]
  return ⟨← r.get? "valid" Json.bool?, ← r.get? "meta" ResourceMeta.ofJson?⟩

end ResourceAttributes

/-- The map as JSON: pairs of reference and binding. -/
def ResourceMap.toJson (m : ResourceMap) : Json :=
  .ofList (fun e : ResourceRef × ResourceBinding => .array [
    .object [("kind", .ofNamed e.1.kind), ("name", .ofOption .string e.1.name)],
    .object [("index", .ofNat e.2.index), ("attributes", e.2.attributes.toJson)]]) m.entries

namespace AssetStore

/-- Reads an entry of an asset list.  An entry is valid unless it says otherwise. -/
def entryOfJson? (j : Json) : Option (String × ResourceAttributes) := do
  let r ← j.record? ["name", "valid", "meta"]
  return (← r.get? "name" Json.string?,
    ⟨← r.getD? "valid" Json.bool? true, ← r.get? "meta" ResourceMeta.ofJson?⟩)

/-- Reads an asset list; the last entry of a resource counts. -/
def ofJson? (j : Json) : Option AssetStore := do
  let entries ← j.list? entryOfJson?
  return entries.foldl (fun s e => s.insert e.2.description.kind e.1 e.2) empty

/-- Reads an asset list off its text. -/
def ofText? (text : String) : Option AssetStore :=
  (Json.parse? text).bind ofJson?

end AssetStore

end Shading
