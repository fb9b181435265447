import Mathlib.Algebra.Group.Nat.Defs
import Shading.Proofs.Layout.Packing

/-!
# Argument blocks round trip

The values of parameters are written into a block and read back through the layout: the
path of a leaf leads to an address, and the bytes at the address spell the leaf.

Main definitions:

- `LeafData` is what the bytes of a leaf say, `LeafData.decode?` reads it.
- `Layout.readLeaf?` reads the leaf at the end of a path.

Main results:

- Theorem `decode?_leafBytes`: the bytes of a leaf are decoded to the leaf.
- Theorem `Stored.readLeaf?`: what is stored is found by walking the layout.
- Theorem `argument_block_round_trip`: every leaf of every parameter is read back.
-/

namespace Shading

open List

/-! ## Reading leaves -/

namespace Bytes

theorem toNat_littleEndian (count n : Nat) : (littleEndian count n).toNat = n % 256 ^ count := by
  induction count generalizing n with
  | zero => exact (Nat.mod_one n).symm
  | succ count ih =>
    have hbyte : (UInt8.ofNat n).toNat = n % 256 := UInt8.toNat_ofNat'
    rw [littleEndian, toNat, ih, hbyte, Nat.pow_succ, Nat.mul_comm (256 ^ count) 256,
      Nat.mod_mul]

/-- The word that four bytes spell. -/
def word32? (bytes : Bytes) : Option UInt32 :=
  if bytes.length = 4 then some (UInt32.ofNat bytes.toNat) else none

/-- The word that eight bytes spell. -/
def word64? (bytes : Bytes) : Option UInt64 :=
  if bytes.length = 8 then some (UInt64.ofNat bytes.toNat) else none

@[simp] theorem word32?_ofWord32 (w : UInt32) : (ofWord32 w).word32? = some w := by
  have hlt : w.toNat < 256 ^ 4 := w.toNat_lt
  rw [ofWord32, word32?, if_pos (length_littleEndian 4 _), toNat_littleEndian,
    Nat.mod_eq_of_lt hlt, UInt32.ofNat_toNat]

@[simp] theorem word64?_ofWord64 (w : UInt64) : (ofWord64 w).word64? = some w := by
  have hlt : w.toNat < 256 ^ 8 := w.toNat_lt
  rw [ofWord64, word64?, if_pos (length_littleEndian 8 _), toNat_littleEndian,
    Nat.mod_eq_of_lt hlt, UInt64.ofNat_toNat]

/-- The truth value that one byte or one word spells. -/
def truth? (bytes : Bytes) : Option Bool :=
  if bytes.length = 1 ∨ bytes.length = 4 then
    match bytes.toNat with
    | 0 => some false
    | 1 => some true
    | _ => none
  else none

end Bytes

/-- What the bytes of a leaf say.  Floating-point numbers are given by their bits, strings
by their ids and resources by their indices. -/
inductive LeafData
  | bool (b : Bool)
  | int (n : Int32)
  | enum (n : Int32)
  | float (bits : UInt32)
  | double (bits : UInt64)
  | string (id : UInt32)
  | resource (kind : ResourceKind) (index : UInt32)
  deriving Repr, DecidableEq

namespace LeafData

/-- What the bytes of a literal without parts should say. -/
def ofValue? (resolver : IndexResolver) : Value → Option LeafData
  | .bool b => some (.bool b)
  | .int n => some (.int n)
  | .enum n => some (.enum n)
  | .float x => some (.float x.toBits)
  | .double x => some (.double x.toBits)
  | .string s => (resolver.stringIndex s).map fun id => .string (UInt32.ofNat id)
  | v => v.resource?.map fun ref => .resource ref.kind (UInt32.ofNat (resolver.resourceIndex ref))

/-- Reads the bytes of a leaf of the given kind. -/
def decode? : ValueKind → Bytes → Option LeafData
  | .bool, bytes => bytes.truth?.map .bool
  | .int, bytes => bytes.word32?.map fun w => .int w.toInt32
  | .enum, bytes => bytes.word32?.map fun w => .enum w.toInt32
  | .float, bytes => bytes.word32?.map .float
  | .double, bytes => bytes.word64?.map .double
  | .string, bytes => bytes.word32?.map .string
  | .texture, bytes => bytes.word32?.map (.resource .texture)
  | .lightProfile, bytes => bytes.word32?.map (.resource .lightProfile)
  | .bsdfMeasurement, bytes => bytes.word32?.map (.resource .bsdfMeasurement)
  | _, _ => none

end LeafData

/-- The bytes of a leaf are decoded to the leaf. -/
theorem decode?_leafBytes {resolver : IndexResolver} {size : Nat} {v : Value} {bytes : Bytes}
    (hbytes : Layout.leafBytes resolver size v = .ok bytes) :
    ∃ d, LeafData.ofValue? resolver v = some d ∧ LeafData.decode? v.kind bytes = some d := by
  cases v with
  | bool b =>
    refine ⟨.bool b, rfl, ?_⟩
    cases hbytes
    split <;> cases b <;> rfl
  | int n | enum n | float x | double x =>
    cases hbytes
    exact ⟨_, rfl, by simp [LeafData.decode?, Value.kind]⟩
  | string s =>
    rw [Layout.leafBytes] at hbytes
    split at hbytes
    · rename_i id hid
      cases hbytes
      refine ⟨.string (UInt32.ofNat id), ?_, ?_⟩
      · rw [LeafData.ofValue?, hid]
        rfl
      · simp [LeafData.decode?, Value.kind, Layout.wordBytes]
    · cases hbytes
  | texture name shape | lightProfile name | bsdfMeasurement name =>
    cases hbytes
    exact ⟨_, rfl, by simp [LeafData.decode?, Value.kind, Layout.wordBytes]⟩
  | vector | matrix | color | array | struct => cases hbytes

namespace Layout

/-- Reads the leaf at an address. -/
def readAt? (l : Layout) (block : Bytes) (address : Nat) : Option LeafData :=
  (l.entry? address).bind fun e => LeafData.decode? e.kind (block.read e.offset e.size)

/-- Reads the leaf at the end of a path of part numbers. -/
def readLeaf? (l : Layout) (block : Bytes) (path : List Nat) (start : Nat) : Option LeafData :=
  (l.address? path start).bind (l.readAt? block)

end Layout

/-- The part of a literal at the end of a path of part numbers. -/
def Value.part? : (path : List Nat) → Value → Option Value
  | [], v => some v
  | k :: rest, v =>
    match v.children[k]? with
    | some part => part.part? rest
    | none => none

/-! ## Walking to leaves -/

theorem Value.children_eq_nil {v : Value} (hv : v.kind.isCompound = false) : v.children = [] := by
  cases v <;> first | rfl | cases hv

/-- What is stored is found by walking the layout. -/
theorem Stored.readLeaf? {l : Layout} {resolver : IndexResolver} {used : Nat → Prop}
    {block : Bytes} {v leaf : Value} {s : Shape} {path : List Nat} {index offset : Nat}
    (hstored : Stored resolver block v s offset)
    (hnodes : Represents l.nodes used s index offset) (hleaf : v.part? path = some leaf)
    (hkind : leaf.kind.isCompound = false) :
    ∃ d, LeafData.ofValue? resolver leaf = some d ∧ l.readLeaf? block path index = some d := by
  induction path generalizing v s index offset with
  | nil =>
    cases hleaf
    cases hstored with
    | leaf _ hbytes =>
      obtain ⟨d, hd, hdecode⟩ := decode?_leafBytes hbytes
      refine ⟨d, hd, ?_⟩
      change (l.entry? index).bind _ = some d
      rw [hnodes.entry?]
      exact hdecode
    | parts hv _ _ =>
      rw [hkind] at hv
      cases hv
  | cons k rest ih =>
    rw [Value.part?] at hleaf
    split at hleaf
    · rename_i part hpart
      cases hstored with
      | leaf hv _ =>
        rw [Value.children_eq_nil hv] at hpart
        cases hpart
      | @parts _ _ _ children hv hcount hparts =>
        have hlt : k < children.length := hcount ▸ (List.getElem?_eq_some_iff.mp hpart).1
        have hk : children[k]? = some (children[k].1, children[k].2) :=
          getElem?_eq_getElem hlt
        obtain ⟨next, hnext, hnodes'⟩ := hnodes.child? hk
        obtain ⟨d, hd, hread⟩ := ih (hparts hpart hk) hnodes' hleaf
        refine ⟨d, hd, ?_⟩
        rw [Layout.readLeaf?, Layout.address?, hnext]
        exact hread
    · cases hleaf

/-! ## Filling a block -/

namespace Layout

variable {l : Layout} {resolver : IndexResolver}

theorem fillFrom_eq_packAll {n : LayoutNode} (hn : l.nodes[root]? = some n) {values : List Value}
    {index : Nat} (hcount : index + values.length ≤ n.childCount) :
    l.fillFrom resolver index values = l.packAll resolver values (n.firstChild + index) := by
  induction values generalizing index with
  | nil => rfl
  | cons v rest ih =>
    rw [length_cons] at hcount
    have hchild : l.child? index root = some (n.firstChild + index) := by
      simp only [child?, hn]
      exact if_pos (by omega)
    rw [fillFrom, hchild, packAll, ih (by omega)]
    rfl

theorem length_newBlock {used : Nat → Prop} {s : Shape}
    (hnodes : Represents l.nodes used s root 0) : l.newBlock.length = s.size := by
  cases hnodes with
  | node here _ _ =>
    have hzero : l.nodes[0]? = some _ := here
    rw [newBlock, Bytes.zeros, length_replicate, Layout.size, hzero]
    rfl

/-- Filling the parameters writes a structure of their values at the root. -/
theorem fill_eq_setValue {used : Nat → Prop} {size : Nat} {children : List (Nat × Shape)}
    (hnodes : Represents l.nodes used (.node .struct size children) root 0) {values : List Value}
    (hcount : values.length = children.length) (block : Bytes) :
    l.fill resolver values block = l.setValue resolver (.struct values) root block := by
  cases hnodes with
  | node here _ _ =>
    rw [fill, fillFrom_eq_packAll here (Nat.le_of_eq (by rw [Nat.zero_add, hcount])), setValue]
    exact (pack_compound_run (v := .struct values) rfl (nodeFor_eq_ok here rfl) hcount).symm

end Layout

/-- Argument blocks round trip.  Parameters without distributions whose values inhabit their
types have a layout, the values can be written into a fresh block, and every leaf of every
value is read back by following its path through the layout.  In storage buffers the types
have to be narrow. -/
theorem argument_block_round_trip (rules : LayoutRules) (parameters : List Parameter)
    (resolver : IndexResolver) (hstorable : ∀ p ∈ parameters, p.type.distribution? = none)
    (hnarrow : rules = .gpuStorage → ∀ p ∈ parameters, p.type.narrow = true)
    (hvalues : ∀ p ∈ parameters, p.value.conformsTo p.type = true)
    (hstrings : ∀ p ∈ parameters, ∀ text ∈ p.value.strings,
      ∃ id, resolver.stringIndex text = some id) :
    ∃ layout block, Layout.build parameters rules = .ok layout ∧
      layout.fill resolver (parameters.map (·.value)) layout.newBlock = (.ok (), block) ∧
      ∀ (i : Nat) (p : Parameter) (path : List Nat) (leaf : Value), parameters[i]? = some p →
        p.value.part? path = some leaf → leaf.kind.isCompound = false →
        ∃ d, LeafData.ofValue? resolver leaf = some d ∧
          layout.readLeaf? block (i :: path) Layout.root = some d := by
  obtain ⟨layout, hbuild, hnodes⟩ := Layout.represents_build rules hstorable
  have hfits : (ValueType.structShape rules (parameters.map (·.type))).Fits := by
    refine ValueType.structShape_fits fun t ht => ?_
    obtain ⟨p, hp, rfl⟩ := mem_map.mp ht
    exact ValueType.shape_fits p.type fun hrules => hnarrow hrules p hp
  have hcount : (parameters.map (·.value)).length = (parameters.map (·.type)).length := by
    rw [length_map, length_map]
  have hencodable : Encodable resolver (.struct (parameters.map (·.value)))
      (ValueType.structShape rules (parameters.map (·.type))) := by
    refine encodable_struct hcount fun {k v t} hv ht => ?_
    rw [getElem?_map] at hv ht
    obtain ⟨p, hp, rfl⟩ := Option.map_eq_some_iff.mp hv
    rw [hp] at ht
    cases ht
    have hmem := mem_of_getElem? hp
    exact encodable_of_conformsTo p.value p.type (hvalues p hmem)
      fun text htext => hstrings p hmem text (Value.mem_strings.mpr htext)
  have hroom : 0 + (ValueType.structShape rules (parameters.map (·.type))).size ≤
      layout.newBlock.length :=
    Nat.le_of_eq (by rw [Layout.length_newBlock hnodes, Nat.zero_add])
  obtain ⟨block, hrun, _, hstored⟩ := hencodable.packsAs hfits hnodes hroom
  refine ⟨layout, block, hbuild, ?_, fun i p path leaf hp hpart hleaf => ?_⟩
  · rw [Layout.fill_eq_setValue hnodes
      (hcount.trans (ValueType.length_structParts rules _).symm)]
    exact hrun
  · refine hstored.readLeaf? hnodes ?_ hleaf
    simp only [Value.part?, Value.children, getElem?_map, hp]
    exact hpart

/-- Two strings with ids, and one index for all resources. -/
def coatResolver : IndexResolver where
  resourceIndex := fun _ => 7
  stringIndex := fun s => ["base", "coat"].idxOf? s

/-- A layer with a colour, two names and a frame, and a texture after it. -/
def coatParameters : List Parameter :=
  [⟨"layer",
    .struct "layer" [("tint", .vector .float 3), ("names", .array .string 2),
      ("frame", .matrix 2 3), ("visible", .bool)],
    .struct [.vector [.float 1, .float 2, .float 4], .array [.string "base", .string "coat"],
      .matrix [.vector [.float 1, .float 2, .float 4], .vector [.float 8, .float 16, .float 32]],
      .bool true]⟩,
   ⟨"map", .texture .flat, .texture (some "coat.png") .flat⟩]

theorem argument_block_round_trip_coat :
    ∃ layout block, Layout.build coatParameters .gpuStorage = .ok layout ∧
      layout.fill coatResolver (coatParameters.map (·.value)) layout.newBlock = (.ok (), block) ∧
      layout.readLeaf? block [0, 1, 1] Layout.root = some (.string 1) ∧
      layout.readLeaf? block [0, 2, 1, 2] Layout.root = some (.float (Float32.toBits 32)) ∧
      layout.readLeaf? block [0, 3] Layout.root = some (.bool true) ∧
      layout.readLeaf? block [1] Layout.root = some (.resource .texture 7) := by
  have hknown : ∀ p ∈ coatParameters, ∀ text ∈ p.value.strings,
      (coatResolver.stringIndex text).isSome = true := by
    decide
  obtain ⟨layout, block, hbuild, hfill, hread⟩ :=
    argument_block_round_trip .gpuStorage coatParameters coatResolver (by decide)
      (fun _ => by decide) (by decide)
      fun p hp text htext => Option.isSome_iff_exists.mp (hknown p hp text htext)
  obtain ⟨_, hname, hreadName⟩ := hread 0 _ [1, 1] (.string "coat") rfl rfl rfl
  obtain ⟨_, hentry, hreadEntry⟩ := hread 0 _ [2, 1, 2] (.float 32) rfl rfl rfl
  obtain ⟨_, hflag, hreadFlag⟩ := hread 0 _ [3] (.bool true) rfl rfl rfl
  obtain ⟨_, hmap, hreadMap⟩ := hread 1 _ [] (.texture (some "coat.png") .flat) rfl rfl rfl
  cases hname
  cases hentry
  cases hflag
  cases hmap
  exact ⟨layout, block, hbuild, hfill, hreadName, hreadEntry, hreadFlag, hreadMap⟩

end Shading
