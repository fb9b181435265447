import Shading.Fragment.Distribution
import Shading.Resource.Store

/-!
# Resource tables

The indices by which generated code refers to resources.  Index 0 of every kind stands
for a resource that is invalid or not used.  A valid resource gets the next index when
it is first seen, and keeps it, so that all functions compiled against the same tables
agree.

Main definitions:

- `ResourceTables` holds the tables; `ResourceTables.register` gives out indices.
- `ResourceTables.bindFragment` and `ResourceTables.bindDistribution` look up
  everything that a fragment or a distribution refers to.
-/

namespace Shading

/-- A row of a resource table. -/
structure ResourceEntry where
  index : Nat
  name : String
  shape : TextureShape
  attributes : ResourceAttributes
  deriving DecidableEq

/-- The first row of a table, which stands for no resource. -/
def ResourceEntry.reserved (kind : ResourceKind) : ResourceEntry :=
  ⟨0, "", .invalid, .invalid kind⟩

/-- One table for every kind of resource. -/
structure ResourceTables where
  textures : List ResourceEntry
  lightProfiles : List ResourceEntry
  bsdfMeasurements : List ResourceEntry
  deriving DecidableEq

namespace ResourceTables

/-- The tables before any resource was seen. -/
def initial : ResourceTables :=
  ⟨[.reserved .texture], [.reserved .lightProfile], [.reserved .bsdfMeasurement]⟩

/-- The table of a kind. -/
def table (t : ResourceTables) : ResourceKind → List ResourceEntry
  | .texture => t.textures
  | .lightProfile => t.lightProfiles
  | .bsdfMeasurement => t.bsdfMeasurements

/-- Appends a row to the table of a kind. -/
def push (t : ResourceTables) (kind : ResourceKind) (e : ResourceEntry) : ResourceTables :=
  match kind with
  | .texture => { t with textures := t.textures ++ [e] }
  | .lightProfile => { t with lightProfiles := t.lightProfiles ++ [e] }
  | .bsdfMeasurement => { t with bsdfMeasurements := t.bsdfMeasurements ++ [e] }

/-- The index of a resource that was seen. -/
def indexOf? (t : ResourceTables) (kind : ResourceKind) (name : String) : Option Nat :=
  (((t.table kind).drop 1).find? fun e => e.name == name).map (·.index)

/-- The index of a resource, which is given out if the resource is new.  An invalid
resource has index 0 and leaves no trace. -/
def register (t : ResourceTables) (kind : ResourceKind) (name : String) (a : ResourceAttributes) :
    Nat × ResourceTables :=
  if a.valid then
    match t.indexOf? kind name with
    | some index => (index, t)
    | none =>
      let index := (t.table kind).length
      (index, t.push kind ⟨index, name, a.shape, a⟩)
  else (0, t)

end ResourceTables

/-! ## Binding references -/

/-- The resources of a distribution: the main map holds those of all its fragments. -/
structure DistributionResources where
  main : ResourceMap
  aux : List ResourceMap

namespace ResourceTables

/-- Binds one reference, unless the map has it. -/
def bind (store : AssetStore) (s : ResourceTables × ResourceMap) (ref : ResourceRef) :
    ResourceTables × ResourceMap :=
  if s.2.contains ref then s
  else
    match ref.name with
    | none => (s.1, s.2.insert ref ⟨0, .invalid ref.kind⟩)
    | some name =>
      let attributes := store.attributes ref.kind name
      let (index, tables) := s.1.register ref.kind name attributes
      (tables, s.2.insert ref ⟨index, attributes⟩)

/-- Binds references in order. -/
def bindAll (store : AssetStore) (s : ResourceTables × ResourceMap) (refs : List ResourceRef) :
    ResourceTables × ResourceMap :=
  refs.foldl (bind store) s

/-- Binds everything that a fragment refers to and that it has no binding for yet. -/
def bindFragment (t : ResourceTables) (store : AssetStore) (lib : Library) (f : Fragment) :
    ResourceTables × ResourceMap :=
  bindAll store (t, f.resources) (lib.resourceRefs f)

/-- Binds the fragments of a list, one map each. -/
def bindFragments (t : ResourceTables) (store : AssetStore) (lib : Library) :
    List Fragment → ResourceTables × List ResourceMap
  | [] => (t, [])
  | f :: rest =>
    let (t, map) := t.bindFragment store lib f
    let (t, maps) := t.bindFragments store lib rest
    (t, map :: maps)

/-- Binds the main fragment, then the auxiliary ones. -/
def bindDistribution (t : ResourceTables) (store : AssetStore) (lib : Library) (d : Distribution) :
    ResourceTables × DistributionResources :=
  let (t, main) := t.bindFragment store lib d.main
  let (t, aux) := t.bindFragments store lib d.aux
  let all := (aux.flatMap (·.entries)).foldl (fun m e => m.insert e.1 e.2) main
  (t, ⟨all, aux⟩)

end ResourceTables

end Shading
