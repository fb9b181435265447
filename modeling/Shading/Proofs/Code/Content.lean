import Shading.Fragment.Basic
import Shading.Proofs.Json.Faithful

/-!
# Contents of fragments

The content of a fragment tells what it computes: the nodes that its results need, the
results themselves, the names and types of its parameters, and the uniform state.  The map
of its resources is written without loss as well.

Main definitions:

- `Value.isFinite`, `Fragment.isFinite` and `ResourceMap.isFinite` say that no number is
  infinite or undefined, among those that are written.
- `Value.masked`, `Node.masked` and `UniformState.masked` have one number in place of all
  that are not finite.
- `Fragment.SameContent` says that two fragments agree in what finite contents show, and
  `Fragment.SameMasked` that they agree in what contents show.

Main results:

- `Value.shows_toJson` and `Value.toJson_masked`: the JSON of a literal shows the masked one.
- `Fragment.content_eq_iff`: contents are the same exactly if fragments agree, masked.
- `Fragment.sameContent_of_content`: finite fragments of the same content agree.
- `Fragment.content_text_is_masked`: so for the text that is hashed.
- `ResourceMap.toJson_faithful`: finite maps of resources are told apart by their JSON.
-/

namespace Shading

open Json

instance : LawfulNamed ResourceKind := ⟨fun a => by cases a <;> rfl⟩
instance : LawfulNamed ExecutionContext := ⟨fun a => by cases a <;> rfl⟩

/-! ## Literals -/

namespace Value

/-- Whether the numbers of a literal are finite, those of its parts apart. -/
def isFiniteHere : Value → Bool
  | .float x => Float32.finite x
  | .double x => Float.finite x
  | .color r g b => Float32.finite r && Float32.finite g && Float32.finite b
  | _ => true

/-- Whether all numbers inside a literal are finite. -/
def isFinite (v : Value) : Bool :=
  v.flatten.all isFiniteHere

/-- What is written of a literal beside its kind. -/
def contentToJson (single : Float32 → Json) : Value → Json
  | .bool b => .bool b
  | .int n => .ofInt32 n
  | .enum n => .ofInt32 n
  | .float x => single x
  | .double x => .ofFloat x
  | .string s => .string s
  | .vector parts => .array (partsToJson single parts)
  | .matrix parts => .array (partsToJson single parts)
  | .color r g b => .array [single r, single g, single b]
  | .array parts => .array (partsToJson single parts)
  | .struct parts => .array (partsToJson single parts)
  | .texture name shape => .object [("name", nameToJson name), ("shape", .ofNamed shape)]
  | .lightProfile name => .object [("name", nameToJson name)]
  | .bsdfMeasurement name => .object [("name", nameToJson name)]

theorem toJson_eq_wrap (single : Float32 → Json) (v : Value) :
    v.toJson single = wrap v.kind (v.contentToJson single) := by
  cases v <;> rfl

theorem tells_nameToJson : Tells nameToJson :=
  tells_string.ofOption fun _ h => by cases h

mutual

/-- The literal with one number in place of all that are not finite. -/
def masked : Value → Value
  | .float x => .float (Float32.masked x)
  | .double x => .double (Float.masked x)
  | .color r g b => .color (Float32.masked r) (Float32.masked g) (Float32.masked b)
  | .vector parts => .vector (maskedAll parts)
  | .matrix parts => .matrix (maskedAll parts)
  | .array parts => .array (maskedAll parts)
  | .struct parts => .struct (maskedAll parts)
  | v => v

/-- The parts of a compound literal, masked. -/
def maskedAll : List Value → List Value
  | [] => []
  | v :: rest => v.masked :: maskedAll rest

end

mutual

theorem toJson_masked (v : Value) : v.masked.toJson .ofWidened = v.toJson .ofWidened := by
  cases v with
  | float x => simp only [masked, toJson, ofWidened_masked]
  | double x => simp only [masked, toJson, ofFloat_masked]
  | color r g b => simp only [masked, toJson, ofWidened_masked]
  | vector parts | matrix parts | array parts | struct parts =>
    simp only [masked, toJson, partsToJson_maskedAll parts]
  | _ => rfl

theorem partsToJson_maskedAll (parts : List Value) :
    partsToJson .ofWidened (maskedAll parts) = partsToJson .ofWidened parts := by
  cases parts with
  | nil => rfl
  | cons v rest => simp only [maskedAll, partsToJson, toJson_masked v, partsToJson_maskedAll rest]

end

mutual

theorem masked_eq_of_sortKeys (v v' : Value)
    (h : (v.toJson .ofWidened).sortKeys = (v'.toJson .ofWidened).sortKeys) :
    v.masked = v'.masked := by
  rw [toJson_eq_wrap, toJson_eq_wrap] at h
  obtain ⟨hkind, hcontent, -⟩ := sortKeys_object_inj h ["kind", "value"]
  have hkind : v.kind = v'.kind := tells_ofNamed hkind
  cases v with
  | bool b =>
    cases v' <;> try cases hkind
    rw [tells_bool hcontent]
  | int n =>
    cases v' <;> try cases hkind
    rw [tells_ofInt32 hcontent]
  | enum n =>
    cases v' <;> try cases hkind
    rw [tells_ofInt32 hcontent]
  | float x =>
    cases v' <;> try cases hkind
    rw [masked, masked, shows_ofWidened hcontent]
  | double x =>
    cases v' <;> try cases hkind
    rw [masked, masked, shows_ofFloat hcontent]
  | string s =>
    cases v' <;> try cases hkind
    rw [tells_string hcontent]
  | color r g b =>
    cases v' <;> try cases hkind
    rename_i r' g' b'
    have hparts : [r, g, b].map Float32.masked = [r', g', b'].map Float32.masked :=
      shows_ofWidened.ofList hcontent
    simp only [List.map_cons, List.map_nil, List.cons.injEq, and_true] at hparts
    rw [masked, masked, hparts.1, hparts.2.1, hparts.2.2]
  | texture name shape =>
    cases v' <;> try cases hkind
    obtain ⟨hname, hshape, -⟩ := sortKeys_object_inj hcontent ["name", "shape"]
    rw [tells_nameToJson hname, tells_ofNamed hshape]
  | lightProfile name =>
    cases v' <;> try cases hkind
    obtain ⟨hname, -⟩ := sortKeys_object_inj hcontent ["name"]
    rw [tells_nameToJson hname]
  | bsdfMeasurement name =>
    cases v' <;> try cases hkind
    obtain ⟨hname, -⟩ := sortKeys_object_inj hcontent ["name"]
    rw [tells_nameToJson hname]
  | _ parts =>
    cases v' <;> try cases hkind
    rw [masked, masked, maskedAll_eq_of_sortItems parts _ (Json.array.inj hcontent)]

theorem maskedAll_eq_of_sortItems (parts parts' : List Value)
    (h : sortItems (partsToJson .ofWidened parts) = sortItems (partsToJson .ofWidened parts')) :
    maskedAll parts = maskedAll parts' := by
  cases parts with
  | nil =>
    cases parts' with
    | nil => rfl
    | cons v' rest' => cases h
  | cons v rest =>
    cases parts' with
    | nil => cases h
    | cons v' rest' =>
      obtain ⟨hfirst, hrest⟩ := List.cons.inj h
      rw [maskedAll, maskedAll, masked_eq_of_sortKeys v v' hfirst,
        maskedAll_eq_of_sortItems rest rest' hrest]

end

/-- The JSON of a literal shows the masked literal. -/
theorem shows_toJson : Shows (Value.toJson .ofWidened) masked :=
  fun v v' h => masked_eq_of_sortKeys v v' h

mutual

theorem masked_of_isFinite (v : Value) (hv : v.isFinite) : v.masked = v := by
  cases v with
  | float x | double x =>
    simp only [isFinite, flatten, List.all_cons, List.all_nil, isFiniteHere,
      Bool.and_true] at hv
    simp [masked, Float32.masked, Float.masked, hv]
  | color r g b =>
    simp only [isFinite, flatten, List.all_cons, List.all_nil, isFiniteHere,
      Bool.and_true, Bool.and_eq_true] at hv
    simp [masked, Float32.masked, hv]
  | vector parts | matrix parts | array parts | struct parts =>
    simp only [isFinite, flatten, List.all_cons, Bool.and_eq_true] at hv
    rw [masked, maskedAll_of_isFinite parts hv.2]
  | _ => rfl

theorem maskedAll_of_isFinite (parts : List Value)
    (hparts : (flattenAll parts).all isFiniteHere) : maskedAll parts = parts := by
  cases parts with
  | nil => rfl
  | cons v rest =>
    rw [flattenAll, List.all_append, Bool.and_eq_true] at hparts
    rw [maskedAll, masked_of_isFinite v hparts.1, maskedAll_of_isFinite rest hparts.2]

end

end Value

/-! ## Nodes -/

/-- Whether the literal of a node is finite, if the node is a constant. -/
def Node.isFinite (n : Node) : Bool :=
  match n.op with
  | .constant value => value.isFinite
  | _ => true

/-- The name of an operation. -/
def NodeOp.tag : NodeOp → String
  | .constant _ => "constant"
  | .parameter _ => "parameter"
  | .call .. => "call"
  | .lambdaResult _ => "lambda_result"

theorem NodeOp.tag_of_sortKeys {op op' : NodeOp}
    (h : (op.toJson .ofWidened).sortKeys = (op'.toJson .ofWidened).sortKeys) :
    op.tag = op'.tag := by
  have htag : ∀ op : NodeOp, ∃ members, op.toJson .ofWidened
      = .object (("kind", .string op.tag) :: members) ∧ "kind" ∉ members.map (·.1) := by
    intro op
    cases op <;> exact ⟨_, rfl, by simp⟩
  obtain ⟨members, hop, -⟩ := htag op
  obtain ⟨members', hop', hkind⟩ := htag op'
  rw [hop, hop'] at h
  exact tells_string (sortKeys_tag h hkind)

/-- The operation with its literal masked. -/
def NodeOp.masked : NodeOp → NodeOp
  | .constant value => .constant value.masked
  | op => op

/-- The node with its literal masked. -/
def Node.masked (n : Node) : Node :=
  { n with op := n.op.masked }

theorem Node.toJson_masked (n : Node) : n.masked.toJson .ofWidened = n.toJson .ofWidened := by
  obtain ⟨op, type⟩ := n
  cases op with
  | constant value =>
    simp only [Node.masked, NodeOp.masked, Node.toJson, NodeOp.toJson, value.toJson_masked]
  | _ => rfl

theorem Node.shows_toJson : Shows (Node.toJson .ofWidened) Node.masked := by
  intro n n' h
  obtain ⟨op, type⟩ := n
  obtain ⟨op', type'⟩ := n'
  obtain ⟨hop, htype, -⟩ := sortKeys_object_inj h ["op", "type"]
  have htag := NodeOp.tag_of_sortKeys hop
  have hop : op.masked = op'.masked := by
    cases op with
    | constant value =>
      cases op' <;> try (simp [NodeOp.tag] at htag)
      obtain ⟨-, hvalue, -⟩ := sortKeys_object_inj hop ["kind", "value"]
      rw [NodeOp.masked, NodeOp.masked, Value.shows_toJson hvalue]
    | parameter index =>
      cases op' <;> try (simp [NodeOp.tag] at htag)
      obtain ⟨-, hindex, -⟩ := sortKeys_object_inj hop ["kind", "index"]
      rw [tells_ofNat hindex]
    | call name args =>
      cases op' <;> try (simp [NodeOp.tag] at htag)
      obtain ⟨-, hname, hargs, -⟩ := sortKeys_object_inj hop ["kind", "name", "args"]
      rw [tells_string hname, tells_ofNat.ofList hargs]
    | lambdaResult index =>
      cases op' <;> try (simp [NodeOp.tag] at htag)
      obtain ⟨-, hindex, -⟩ := sortKeys_object_inj hop ["kind", "index"]
      rw [tells_ofNat hindex]
  have htype : type = type' := ValueType.tells_toJson htype
  simp only [Node.masked, hop, htype]

theorem Node.masked_of_isFinite {n : Node} (hn : n.isFinite) : n.masked = n := by
  obtain ⟨op, type⟩ := n
  cases op with
  | constant value => simp only [Node.masked, NodeOp.masked, value.masked_of_isFinite hn]
  | _ => rfl

/-! ## Uniform states -/

/-- Whether the entries of a matrix are finite. -/
def Transform.isFinite (t : Transform) : Bool :=
  t.toList.all fun row => row.toList.all Float32.finite

/-- Whether the entries of the transforms are finite. -/
def UniformState.isFinite (u : UniformState) : Bool :=
  Transform.isFinite u.worldToObject && Transform.isFinite u.objectToWorld

/-- The matrix with its entries masked. -/
def Transform.masked (t : Transform) : Transform :=
  t.map fun row => row.map Float32.masked

/-- The state with its transforms masked. -/
def UniformState.masked (u : UniformState) : UniformState :=
  { u with
    worldToObject := Transform.masked u.worldToObject
    objectToWorld := Transform.masked u.objectToWorld }

namespace Transform

theorem toJson_masked (t : Transform) :
    Transform.toJson .ofWidened (masked t) = Transform.toJson .ofWidened t := by
  unfold Transform.toJson masked Json.ofList
  simp only [Vector.toList_map, List.map_map, Function.comp_def, ofWidened_masked]

theorem shows_toJson : Shows (Transform.toJson .ofWidened) masked := by
  have hrow : Shows (fun row : Vector Float32 4 => .ofList .ofWidened row.toList)
      fun row => row.map Float32.masked := by
    intro row row' h
    rw [← Vector.toList_inj, Vector.toList_map, Vector.toList_map]
    exact shows_ofWidened.ofList h
  intro t t' h
  rw [masked, masked, ← Vector.toList_inj, Vector.toList_map, Vector.toList_map]
  exact hrow.ofList h

theorem masked_of_isFinite {t : Transform} (ht : isFinite t) : masked t = t := by
  simp only [isFinite, List.all_eq_true] at ht
  rw [masked, ← Vector.toList_inj, Vector.toList_map]
  refine (List.map_congr_left fun row hrow => ?_).trans t.toList.map_id
  rw [← Vector.toList_inj, Vector.toList_map]
  refine (List.map_congr_left fun x hx => ?_).trans row.toList.map_id
  exact if_pos (ht row hrow x hx)

end Transform

namespace UniformState

theorem toJson_masked (u : UniformState) : u.masked.toJson .ofWidened = u.toJson .ofWidened := by
  simp only [UniformState.toJson, masked, Transform.toJson_masked]

theorem shows_toJson : Shows (UniformState.toJson .ofWidened) masked := by
  intro u u' h
  obtain ⟨hworld, hobject, hid, -⟩ :=
    sortKeys_object_inj h ["world_to_object", "object_to_world", "object_id"]
  simp only [masked, Transform.shows_toJson hworld, Transform.shows_toJson hobject,
    tells_ofInt32 hid]

theorem masked_of_isFinite {u : UniformState} (hu : u.isFinite) : u.masked = u := by
  simp only [isFinite, Bool.and_eq_true] at hu
  simp only [masked, Transform.masked_of_isFinite hu.1, Transform.masked_of_isFinite hu.2]

end UniformState

/-! ## Fragments -/

/-- The name and the type of a parameter, without its value. -/
def Parameter.declared (p : Parameter) : String × ValueType :=
  (p.name, p.type)

namespace Fragment

variable {f f' : Fragment}

/-- Whether all numbers in the constants that the results need and in the uniform state are
finite. -/
def isFinite (f : Fragment) : Bool :=
  f.reachable.all (fun n => n.2.isFinite) && f.uniform.all UniformState.isFinite

/-- Two fragments that agree in what their contents show. -/
structure SameContent (f f' : Fragment) : Prop where
  context : f'.context = f.context
  roots : f'.roots = f.roots
  reachable : f'.reachable = f.reachable
  parameters : f'.parameters.map Parameter.declared = f.parameters.map Parameter.declared
  uniform : f'.uniform = f.uniform

theorem tells_rootsToJson : Tells rootsToJson := by
  intro r r' h
  cases r with
  | single body =>
    cases r' with
    | single body' =>
      obtain ⟨-, hbody, -⟩ := sortKeys_object_inj h ["form", "nodes"]
      rw [tells_ofNat hbody]
    | multiRoot roots' =>
      obtain ⟨hform, -⟩ := sortKeys_object_inj h ["form", "nodes"]
      exact absurd (tells_string hform) (by decide)
  | multiRoot roots =>
    cases r' with
    | single body' =>
      obtain ⟨hform, -⟩ := sortKeys_object_inj h ["form", "nodes"]
      exact absurd (tells_string hform) (by decide)
    | multiRoot roots' =>
      obtain ⟨-, hroots, -⟩ := sortKeys_object_inj h ["form", "nodes"]
      rw [tells_ofNat.ofList hroots]

/-- Two fragments that agree in what their contents show, with the numbers that are not
finite masked. -/
structure SameMasked (f f' : Fragment) : Prop where
  context : f'.context = f.context
  roots : f'.roots = f.roots
  reachable : f'.reachable.map (fun n => (n.1, n.2.masked))
    = f.reachable.map fun n => (n.1, n.2.masked)
  parameters : f'.parameters.map Parameter.declared = f.parameters.map Parameter.declared
  uniform : f'.uniform.map UniformState.masked = f.uniform.map UniformState.masked

/-- What a content shows. -/
theorem sameMasked_of_content (h : f.content = f'.content) : f.SameMasked f' := by
  have hnode : Shows (fun n : Nat × Node =>
      .object [("id", .ofNat n.1), ("node", n.2.toJson .ofWidened)])
      fun n => (n.1, n.2.masked) := by
    intro n n' h
    obtain ⟨hid, hnode, -⟩ := sortKeys_object_inj h ["id", "node"]
    exact Prod.ext (tells_ofNat hid) (Node.shows_toJson hnode)
  have hparameter : Shows (fun p : Parameter =>
      .object [("name", .string p.name), ("type", p.type.toJson)]) Parameter.declared := by
    intro p p' h
    obtain ⟨hname, htype, -⟩ := sortKeys_object_inj h ["name", "type"]
    exact Prod.ext (tells_string hname)
      (ValueType.tells_toJson htype)
  obtain ⟨hcontext, hroots, hnodes, hparameters, huniform, -⟩ := sortKeys_object_inj h
    ["context", "roots", "nodes", "parameters", "uniform_state"]
  constructor
  · exact (tells_ofNamed hcontext).symm
  · exact (tells_rootsToJson.ofOption (fun r h => by cases r <;> cases h) hroots).symm
  · exact (hnode.ofList hnodes).symm
  · exact (hparameter.ofList hparameters).symm
  · exact (UniformState.shows_toJson.ofOption (fun u h => by cases h) huniform).symm

/-- Fragments have the same content exactly if they agree, masked. -/
theorem content_eq_iff : f.content = f'.content ↔ f.SameMasked f' := by
  refine ⟨sameMasked_of_content, fun h => ?_⟩
  have hnodes : ∀ f : Fragment, Json.ofList (fun n : Nat × Node =>
        .object [("id", .ofNat n.1), ("node", n.2.toJson .ofWidened)])
        (f.reachable.map fun n => (n.1, n.2.masked))
      = Json.ofList (fun n : Nat × Node =>
        .object [("id", .ofNat n.1), ("node", n.2.toJson .ofWidened)]) f.reachable := by
    intro f
    simp only [Json.ofList, List.map_map, Function.comp_def, Node.toJson_masked]
  have hparameters : ∀ f : Fragment, Json.ofList (fun p : Parameter =>
        .object [("name", .string p.name), ("type", p.type.toJson)]) f.parameters
      = Json.ofList (fun d : String × ValueType =>
        .object [("name", .string d.1), ("type", d.2.toJson)])
        (f.parameters.map Parameter.declared) := by
    intro f
    simp only [Json.ofList, List.map_map]
    rfl
  have huniform : ∀ f : Fragment,
      Json.ofOption (UniformState.toJson .ofWidened) (f.uniform.map UniformState.masked)
        = Json.ofOption (UniformState.toJson .ofWidened) f.uniform := by
    intro f
    cases f.uniform with
    | none => rfl
    | some u => exact u.toJson_masked
  unfold content
  rw [h.context, h.roots, ← hnodes f', h.reachable, hnodes, hparameters f', h.parameters,
    ← hparameters, ← huniform f', h.uniform, huniform]

/-- Finite fragments of the same content agree in what it shows. -/
theorem sameContent_of_content (hf : f.isFinite) (hf' : f'.isFinite)
    (h : f.content = f'.content) : f.SameContent f' := by
  obtain ⟨hcontext, hroots, hreachable, hparameters, huniform⟩ := sameMasked_of_content h
  have hnodes : ∀ {f : Fragment}, f.isFinite →
      f.reachable.map (fun n => (n.1, n.2.masked)) = f.reachable := by
    intro f hf
    simp only [isFinite, Bool.and_eq_true, List.all_eq_true] at hf
    refine (List.map_congr_left fun n hn => ?_).trans f.reachable.map_id
    rw [Node.masked_of_isFinite (hf.1 n hn)]
    rfl
  have hstate : ∀ {f : Fragment}, f.isFinite → f.uniform.map UniformState.masked = f.uniform := by
    intro f hf
    simp only [isFinite, Bool.and_eq_true, Option.all_eq_true] at hf
    cases hu : f.uniform with
    | none => rfl
    | some u => rw [Option.map_some, UniformState.masked_of_isFinite (hf.2 u hu)]
  rw [hnodes hf', hnodes hf] at hreachable
  rw [hstate hf', hstate hf] at huniform
  exact ⟨hcontext, hroots, hreachable, hparameters, huniform⟩

/-- The text that is hashed for a fragment shows the context, the results, the nodes that
they need with their ids, the names and types of the parameters, and the uniform state, all
numbers exactly but for those that are not finite.  Of these it shows where they stand. -/
theorem content_text_is_masked (f f' : Fragment) :
    (f.content.text = f'.content.text ↔ f.SameMasked f') ∧
      (f.isFinite → f'.isFinite → (f.content.text = f'.content.text ↔ f.SameContent f')) := by
  have htext : f.content.text = f'.content.text ↔ f.content = f'.content :=
    ⟨Json.text_inj, congrArg Json.text⟩
  rw [htext]
  refine ⟨content_eq_iff, fun hf hf' => ⟨sameContent_of_content hf hf', fun h => ?_⟩⟩
  exact content_eq_iff.mpr ⟨h.context, h.roots, by rw [h.reachable], h.parameters,
    by rw [h.uniform]⟩

end Fragment

/-- A function whose result is a number. -/
def glow (x : Float32) : Fragment :=
  { Fragment.empty "glow" .core with
    graph := ⟨#[⟨.constant (.float x), .float⟩]⟩
    roots := some (.single 0) }

theorem glow_reachable (x : Float32) :
    (glow x).reachable = [(0, ⟨.constant (.float x), .float⟩)] := by
  cbv

theorem glow_isFinite {x : Float32} (hx : Float32.finite x) : (glow x).isFinite := by
  unfold Fragment.isFinite
  rw [glow_reachable]
  simpa [glow, Fragment.empty, Node.isFinite, Value.isFinite, Value.flatten,
    Value.isFiniteHere] using hx

/-- Finite numbers are told apart, zero from negative zero. -/
theorem content_text_is_masked_glow :
    (glow (Float32.ofBits 0)).isFinite ∧ (glow (Float32.ofBits 0x80000000)).isFinite ∧
      (glow (Float32.ofBits 0)).content.text ≠ (glow (Float32.ofBits 0x80000000)).content.text := by
  have hzero : (glow (Float32.ofBits 0)).isFinite := glow_isFinite (by decide)
  have hnegative : (glow (Float32.ofBits 0x80000000)).isFinite := glow_isFinite (by decide)
  refine ⟨hzero, hnegative, fun htext => ?_⟩
  have hsame := ((Fragment.content_text_is_masked _ _).2 hzero hnegative).mp htext
  have hreachable := hsame.reachable
  rw [glow_reachable, glow_reachable] at hreachable
  revert hreachable
  simp only [List.cons.injEq, Prod.mk.injEq, Node.mk.injEq, NodeOp.constant.injEq,
    Value.float.injEq]
  decide

/-- The numbers that are read from the texts `1e39` and `-1e39` differ, but not in the text
that is hashed. -/
theorem content_text_hides_infinity : let above := Float32.ofBits 0x7f800000
    let below := Float32.ofBits 0xff800000
    (Json.scan? "1e39").bind Json.float32? = some above ∧
      (Json.scan? "-1e39").bind Json.float32? = some below ∧
      (glow above).content.text = (glow below).content.text ∧
      (glow above).reachable ≠ (glow below).reachable := by
  intro above below
  have hmasked : Float32.masked below = Float32.masked above :=
    Float32.masked_eq_iff.mpr (Or.inr ⟨by decide, by decide⟩)
  refine ⟨by decide +kernel, by decide +kernel, congrArg Json.text ?_, ?_⟩
  · refine Fragment.content_eq_iff.mpr ⟨rfl, rfl, ?_, rfl, rfl⟩
    simp only [glow_reachable, List.map_cons, List.map_nil, Node.masked, NodeOp.masked,
      Value.masked, hmasked]
  · rw [glow_reachable, glow_reachable]
    simp only [ne_eq, List.cons.injEq, Prod.mk.injEq, Node.mk.injEq, NodeOp.constant.injEq,
      Value.float.injEq]
    decide

/-! ## Resources -/

/-- Whether the numbers of a description are finite. -/
def ResourceMeta.isFinite : ResourceMeta → Bool
  | .lightProfile power maximum => Float32.finite power && Float32.finite maximum
  | _ => true

/-- Whether the numbers in the descriptions of all bound resources are finite. -/
def ResourceMap.isFinite (m : ResourceMap) : Bool :=
  m.entries.all fun e => e.2.attributes.description.isFinite

theorem ResourceMeta.toJson_faithful : Faithful ResourceMeta.toJson fun d => d.isFinite := by
  intro d d' hd hd' h
  have htag : ∀ d : ResourceMeta, ∃ members, d.toJson
      = .object (("kind", .ofNamed d.kind) :: members) ∧ "kind" ∉ members.map (·.1) := by
    intro d
    cases d <;> exact ⟨_, rfl, by simp⟩
  have hkind : d.kind = d'.kind := by
    obtain ⟨members, hmembers, -⟩ := htag d
    obtain ⟨members', hmembers', hfresh⟩ := htag d'
    rw [hmembers, hmembers'] at h
    exact tells_ofNamed (sortKeys_tag h hfresh)
  cases d with
  | texture shape width height depth =>
    cases d' <;> try cases hkind
    obtain ⟨-, hshape, hwidth, hheight, hdepth, -⟩ :=
      sortKeys_object_inj h ["kind", "shape", "width", "height", "depth"]
    rw [tells_ofNamed hshape, tells_ofNat hwidth, tells_ofNat hheight, tells_ofNat hdepth]
  | lightProfile power maximum =>
    cases d' <;> try cases hkind
    simp only [isFinite, Bool.and_eq_true] at hd hd'
    obtain ⟨-, hpower, hmaximum, -⟩ := sortKeys_object_inj h ["kind", "power", "maximum"]
    rw [faithful_ofFloat32 hd.1 hd'.1 hpower, faithful_ofFloat32 hd.2 hd'.2 hmaximum]
  | bsdfMeasurement => cases d' <;> first | rfl | cases hkind

theorem ResourceMap.toJson_faithful : Faithful ResourceMap.toJson fun m => m.isFinite := by
  have hentry : Faithful (fun e : ResourceRef × ResourceBinding => .array [
      .object [("kind", .ofNamed e.1.kind), ("name", .ofOption .string e.1.name)],
      .object [("index", .ofNat e.2.index), ("attributes", e.2.attributes.toJson)]])
      fun e => e.2.attributes.description.isFinite := by
    intro e e' he he' h
    obtain ⟨⟨kind, name⟩, index, valid, description⟩ := e
    obtain ⟨⟨kind', name'⟩, index', valid', description'⟩ := e'
    obtain ⟨href, hrest⟩ := List.cons.inj (Json.array.inj h)
    obtain ⟨hbinding, -⟩ := List.cons.inj hrest
    obtain ⟨hkind, hname, -⟩ := sortKeys_object_inj href ["kind", "name"]
    obtain ⟨hindex, hattributes, -⟩ := sortKeys_object_inj hbinding ["index", "attributes"]
    obtain ⟨hvalid, hdescription, -⟩ := sortKeys_object_inj hattributes ["valid", "meta"]
    have hkind : kind = kind' := tells_ofNamed hkind
    have hname : name = name' := Value.tells_nameToJson hname
    have hindex : index = index' := tells_ofNat hindex
    have hvalid : valid = valid' := tells_bool hvalid
    have hdescription : description = description' :=
      ResourceMeta.toJson_faithful he he' hdescription
    rw [hkind, hname, hindex, hvalid, hdescription]
  intro m m' hm hm' h
  simp only [isFinite, List.all_eq_true] at hm hm'
  have hentries := hentry.ofList hm hm' h
  obtain ⟨entries⟩ := m
  obtain ⟨entries'⟩ := m'
  rw [show entries = entries' from hentries]

end Shading
