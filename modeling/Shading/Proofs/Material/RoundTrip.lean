import Shading.Material.Json
import Shading.Proofs.Json.Literals

/-!
# Materials are read back

A material is written as JSON with its graph, its fields and its parameters.  A node has its kind in
front of what the kind holds, and the fields are the members of an object, listed by path.

A number of 32 bits is read as one of 64 bits and then rounded, which `Float32.ReadsBack` asks to
give the number that was written.

Main definitions:

- `OrderedMap.Ascending` says that a map lists its entries by key.
- `Material.fits` says that the numbers of a material fit their widths.
- `Material.isFinite` and `Material.singles` speak of the literals in its graph and its parameters.

Main results:

- `OrderedMap.ofList_entries`: a map is made of its entries.
- `Material.ofJson?_toJson`: a material is read back from its JSON.
- `materials_survive_serialization`: a material that is consistent loads from its own text.
-/

namespace Shading

open List

/-! ## Maps -/

namespace OrderedMap

variable {κ υ : Type} [LT κ]

/-- The keys of a map stand in ascending order. -/
def Ascending (m : OrderedMap κ υ) : Prop :=
  m.entries.Pairwise fun a b => a.1 < b.1

variable [DecidableLT κ]

instance (m : OrderedMap κ υ) : Decidable m.Ascending :=
  inferInstanceAs (Decidable (m.entries.Pairwise fun a b => a.1 < b.1))

/-- An entry behind all others is written at the end. -/
theorem insertEntry_of_lt (asymm : ∀ a b : κ, a < b → ¬ b < a) {entries : List (κ × υ)} {key : κ}
    (value : υ) (h : ∀ e ∈ entries, e.1 < key) :
    insertEntry key value entries = entries ++ [(key, value)] := by
  induction entries with
  | nil => rfl
  | cons e rest ih =>
    obtain ⟨k, v⟩ := e
    have hlt := h (k, v) mem_cons_self
    rw [insertEntry, if_neg (asymm _ _ hlt), if_pos hlt,
      ih fun e he => h e (mem_cons_of_mem _ he), cons_append]

/-- A map in ascending order is made of its entries. -/
theorem ofList_entries (asymm : ∀ a b : κ, a < b → ¬ b < a) {m : OrderedMap κ υ}
    (h : m.Ascending) : ofList m.entries = m := by
  obtain ⟨entries⟩ := m
  have hfold : ∀ before after : List (κ × υ), (before ++ after).Pairwise (fun a b => a.1 < b.1) →
      after.foldl (fun m e => m.insert e.1 e.2) ⟨before⟩
        = (⟨before ++ after⟩ : OrderedMap κ υ) := by
    intro before after
    induction after generalizing before with
    | nil => simp
    | cons e after ih =>
      intro hsorted
      have hbefore : ∀ e' ∈ before, e'.1 < e.1 := fun e' he' =>
        (pairwise_append.mp hsorted).2.2 e' he' e mem_cons_self
      rw [append_cons] at hsorted
      rw [foldl_cons, insert, insertEntry_of_lt asymm e.2 hbefore, ih _ hsorted,
        ← append_cons]
  exact hfold [] entries h

end OrderedMap

open Json

/-! ## Graphs -/

/-- Whether the numbers of an operation fit their widths. -/
def NodeOp.fits : NodeOp → Bool
  | .constant _ => true
  | .parameter index | .lambdaResult index => decide (index < 2 ^ 64)
  | .call _ args => args.all (· < 2 ^ 32)

/-- Whether the numbers of a node fit their widths. -/
def Node.fits (n : Node) : Bool :=
  n.op.fits && n.type.fits

/-- The numbers of 32 bits in the literal of a node. -/
def Node.singles (n : Node) : List Float32 :=
  match n.op with
  | .constant value => value.singles
  | _ => []

/-- An operation that is a tag with an index is read back. -/
theorem NodeOp.ofJson?_indexed {tag : String} {op : Nat → NodeOp} {j : Json} {index : Nat}
    (htag : tag = "parameter" ∧ op = .parameter ∨ tag = "lambda_result" ∧ op = .lambdaResult)
    (hj : nat64? j = some index) (hreadable : j.isReadable) :
    ofJson? (.object [("kind", .string tag), ("index", j)]) = some (op index) := by
  rw [ofJson?, tagged?_object (by simp) (by simp [haveReadable, hreadable])]
  rcases htag with ⟨rfl, rfl⟩ | ⟨rfl, rfl⟩ <;> simp [string?, record?_object, hj]

/-- An operation is read back. -/
theorem NodeOp.ofJson?_toJson {op : NodeOp} (hfits : op.fits)
    (hvalue : ∀ v, op = .constant v → v.ReadsBack) : ofJson? (op.toJson .ofFloat32) = some op := by
  cases op with
  | constant v =>
    have hv := hvalue v rfl
    have hread := Value.ofJsonIn?_toJson hv .kept
    have hreadable : haveReadable [("value", v.toJson .ofFloat32)] := by
      simp [haveReadable, Value.isReadable_toJson hv]
    rw [toJson, ofJson?, tagged?_object (by simp) hreadable]
    simp [string?, record?_object, hread]
  | parameter index =>
    have hindex := of_decide_eq_true hfits
    exact ofJson?_indexed (.inl ⟨rfl, rfl⟩) (nat64?_ofNat hindex) (isReadable_ofNat hindex)
  | lambdaResult index =>
    have hindex := of_decide_eq_true hfits
    exact ofJson?_indexed (.inr ⟨rfl, rfl⟩) (nat64?_ofNat hindex) (isReadable_ofNat hindex)
  | call name args =>
    simp only [fits, all_eq_true, decide_eq_true_eq] at hfits
    have hargs : list? nat32? (ofList ofNat args) = some args :=
      list?_ofList fun n hn => nat32?_ofNat (hfits n hn)
    have hreadable : (ofList ofNat args).isReadable := by
      apply isReadable_ofList
      intro n hn
      have hlt := hfits n hn
      exact isReadable_ofNat (by omega)
    rw [toJson, ofJson?, tagged?_object (by simp) (by simp [haveReadable, isReadable, hreadable])]
    simp [string?, record?_object, hargs]

theorem Node.ofJson?_toJson {n : Node} (hfits : n.fits) (hfinite : n.isFinite)
    (hsingles : ∀ x ∈ n.singles, Float32.ReadsBack x) : ofJson? (n.toJson .ofFloat32) = some n := by
  obtain ⟨op, t⟩ := n
  simp only [fits, Bool.and_eq_true] at hfits
  have hop := NodeOp.ofJson?_toJson hfits.1 fun v hv => by
    subst hv
    exact Value.readsBack_of_isFinite hfinite hsingles
  simp [toJson, ofJson?, record?_object, hop, ValueType.ofJson?_toJson hfits.2]

theorem Graph.ofJson?_toJson {g : Graph}
    (h : ∀ n ∈ g.nodes.toList, Node.ofJson? (n.toJson .ofFloat32) = some n) :
    ofJson? (g.toJson .ofFloat32) = some g := by
  rw [toJson, ofJson?, list?_ofList h]
  rfl

/-! ## Materials -/

/-- A parameter is read back. -/
theorem Parameter.ofJson?_toJson {p : Parameter} (hfits : p.type.fits)
    (hvalue : p.value.ReadsBack) : ofJson? p.toJson = some p := by
  have htype := ValueType.ofJsonIn?_toJson hfits .direct
  have hvalue := Value.ofJsonIn?_toJson hvalue .direct
  simp [toJson, ofJson?, ofJsonIn?, record?_object, string?, htype, hvalue]

namespace Material

/-- The fields of a material are read back. -/
theorem fieldsOfJson?_fieldsToJson {fields : OrderedMap String Nat} (hsorted : fields.Ascending)
    (hfits : ∀ f ∈ fields.entries, f.2 < 2 ^ 32) :
    fieldsOfJson? (fieldsToJson fields) = some fields := by
  have hmembers : ∀ entries : List (String × Nat), (∀ f ∈ entries, f.2 < 2 ^ 32) →
      (entries.map fun f => (f.1, ofNat f.2)).mapM
        (fun m : String × Json => (nat32? m.2).bind fun n => some (m.1, n)) = some entries := by
    intro entries hentries
    induction entries with
    | nil => rfl
    | cons f entries ih =>
      rw [map_cons, mapM_cons, nat32?_ofNat (hentries f mem_cons_self),
        ih fun f' hf' => hentries f' (mem_cons_of_mem f hf')]
      rfl
  have hread := hmembers fields.entries hfits
  have hmap := OrderedMap.ofList_entries (fun _ _ => String.lt_asymm) hsorted
  simp [fieldsToJson, fieldsOfJson?, hread, hmap]

/-- Whether the numbers of a material fit their widths. -/
def fits (m : Material) : Bool :=
  m.graph.nodes.toList.all Node.fits && m.fields.entries.all (fun f => f.2 < 2 ^ 32)
    && m.parameters.all fun p => p.type.fits

/-- Whether all literals of a material are finite. -/
def isFinite (m : Material) : Bool :=
  m.graph.nodes.toList.all Node.isFinite && m.parameters.all fun p => p.value.isFinite

/-- The numbers of 32 bits in the literals of a material. -/
def singles (m : Material) : List Float32 :=
  m.graph.nodes.toList.flatMap Node.singles ++ m.parameters.flatMap fun p => p.value.singles

/-- A material is read back. -/
theorem ofJson?_toJson {m : Material} (hfits : m.fits) (hfinite : m.isFinite)
    (hsingles : ∀ x ∈ m.singles, Float32.ReadsBack x) (hfields : m.fields.Ascending) :
    ofJson? m.toJson = some m := by
  simp only [fits, Bool.and_eq_true, all_eq_true, decide_eq_true_eq] at hfits
  obtain ⟨⟨hnodes, hids⟩, htypes⟩ := hfits
  simp only [isFinite, Bool.and_eq_true, all_eq_true] at hfinite
  simp only [singles, mem_append, mem_flatMap] at hsingles
  have hgraph : Graph.ofJson? (m.graph.toJson .ofFloat32) = some m.graph := by
    apply Graph.ofJson?_toJson
    intro n hn
    exact Node.ofJson?_toJson (hnodes n hn) (hfinite.1 n hn)
      fun x hx => hsingles x (.inl ⟨n, hn, hx⟩)
  have hparameters : list? Parameter.ofJson? (ofList Parameter.toJson m.parameters)
      = some m.parameters := by
    apply list?_ofList
    intro p hp
    refine Parameter.ofJson?_toJson (htypes p hp) ?_
    exact Value.readsBack_of_isFinite (hfinite.2 p hp) fun x hx => hsingles x (.inr ⟨p, hp, hx⟩)
  have hfields := fieldsOfJson?_fieldsToJson hfields hids
  simp [toJson, ofJson?, record?_object, string?, Record.getD?, hgraph, hfields, hparameters]

end Material

/-- A consistent material with finite literals loads from its own text, and every node, argument
list, literal, type, field and parameter is what it was. -/
theorem materials_survive_serialization {m : Material} (hcheck : m.check = .ok ())
    (hfinite : m.isFinite) (hsingles : ∀ x ∈ m.singles, Float32.ReadsBack x) (hfits : m.fits)
    (hfields : m.fields.Ascending) (hdepth : m.toJson.depth ≤ Json.maxDepth) :
    Material.loadText m.toJson.text = .ok m := by
  have hread := Material.ofJson?_toJson hfits hfinite hsingles hfields
  simp only [Material.loadText, Material.load, parse?_text hdepth, Option.bind_some, hread, hcheck]

/-- A material with a record that holds an array of colors, a string that needs escapes and a
texture, a call, and a parameter of two formats. -/
def sampleMaterial : Material where
  name := "say \"hi\"\t\u00e9"
  graph := ⟨#[
    ⟨.constant (.struct [
        .array [.color (Float32.ofBits 0) (Float32.ofBits 0x3dcccccd) (Float32.ofBits 0x80000000)],
        .string "a\\b\n", .texture (some "wood.png") .flat, .lightProfile none, .enum (-3)]),
      .struct "pack" [("tints", .array .color 1), ("note", .string), ("image", .texture .flat),
        ("lamp", .lightProfile), ("mode", .enum "mode")]⟩,
    ⟨.parameter 0, .struct "pair" [("left", .vector .float 2), ("right", .double)]⟩,
    ⟨.call "df::diffuse" [1, 0], .bsdf⟩]⟩
  fields := ⟨[("surface.emission", 0), ("surface.scattering", 2)]⟩
  parameters := [⟨"p", .struct "pair" [("left", .vector .float 2), ("right", .double)],
    .struct [.vector [.float (Float32.ofBits 0x3f800000), .float (Float32.ofBits 0x00000001)],
      .double (Float.ofBits 0x3fb999999999999a)]⟩]

theorem materials_survive_serialization_sample :
    Material.loadText sampleMaterial.toJson.text = .ok sampleMaterial := by
  apply materials_survive_serialization
  · rfl
  · decide
  · decide +kernel
  · decide
  · decide
  · decide

end Shading
