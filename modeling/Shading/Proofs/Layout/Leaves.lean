import Shading.Proofs.Layout.Frame
import Shading.Proofs.Layout.Parts
import Shading.Proofs.Layout.RoundTrip

/-!
# Leaves of blocks

A leaf that was packed into a block is read back unless something is packed over it later.
Packing goes upwards, and what cannot be packed is cleared in its own place, so a leaf is
safe if every part that it lies in is inside the part around it.  This fails for vectors
only: in storage buffers none has room for more than four components, and those past the
fourth run over what lies behind the vector.

Main definitions:

- `ValueType.hasRoomAlong` says that there is room for every part on a path.
- `Layout.Holds` says that a leaf stands at the end of a path.
- `Layout.ParameterPacked` says how a parameter of a block was packed.

Main results:

- `Layout.holds_of_pack`: packing writes the leaves that there is room for.
- `Layout.exists_parameterPacked`: filling a block packs all parameters but those that fail.
- `Layout.ParameterPacked.readLeaf?`: the leaves of such a parameter are read back.
-/

namespace Shading

open List

variable {rules : LayoutRules} {t : ValueType} {k address offset : Nat} {v : Value}
  {block block' : Bytes} {used : Nat → Prop}

/-! ## Room -/

/-- The part of a number lies inside a room, and the parts after it lie behind it. -/
structure Sheltered (room : Nat) (parts : List (Nat × Shape)) (k : Nat) : Prop where
  inside : ∀ {o : Nat} {s : Shape}, parts[k]? = some (o, s) → o + s.size ≤ room
  before : ∀ {j o o' : Nat} {s s' : Shape}, k < j → parts[k]? = some (o, s) →
    parts[j]? = some (o', s') → o + s.size ≤ o'

theorem Apart.sheltered {room : Nat} {parts : List (Nat × Shape)} (h : Apart room parts)
    (k : Nat) : Sheltered room parts k :=
  ⟨h.inside, h.ordered⟩

namespace ValueType

/-- Whether a type has room for its part of a number.  In storage buffers a vector has room
for four components. -/
def hasRoomFor (rules : LayoutRules) (k : Nat) : ValueType → Bool
  | .vector _ _ => rules = .scalar || k < 4
  | _ => true

/-- Whether there is room for every part on a path of part numbers. -/
def hasRoomAlong (rules : LayoutRules) (t : ValueType) : (path : List Nat) → Bool
  | [] => true
  | k :: path =>
    t.hasRoomFor rules k &&
      match t.childType k with
      | some u => u.hasRoomAlong rules path
      | none => true

theorem structParts_apart (rules : LayoutRules) (types : List ValueType) :
    Apart (pack (types.map (extent rules))).extent.size
      ((pack (types.map (extent rules))).offsets.zip (types.map (shape rules))) :=
  (pack_types_orderly rules types).apart (by simp [Function.comp_def, size])

theorem shapeParts_apart (ht : rules = .gpuStorage → t.narrow = true) :
    Apart (t.size rules) (t.shapeParts rules) := by
  have hfits := shape_fits t ht
  rw [shape_eq_node] at hfits
  cases hfits with
  | node apart _ => exact apart

theorem vectorParts_sheltered {element : ScalarType} {count : Nat}
    (hk : rules = .gpuStorage → k < 4) :
    Sheltered (size rules (.vector element count))
      (shapeParts rules (.vector element count)) k := by
  -- The components lie side by side, but not all of them inside the vector.
  have hapart : Apart (count * (rules.scalarExtent element).size)
      (shapeParts rules (.vector element count)) := by
    simp only [shapeParts, shape, vectorShape, childOffsets, map_map]
    exact apart_strided (Nat.le_refl _) (Nat.le_refl _)
  refine ⟨fun {o s} hpart => ?_, hapart.ordered⟩
  simp only [shapeParts, shape, vectorShape, childOffsets, map_map] at hpart
  obtain ⟨i, hi, heq⟩ := Option.map_eq_some_iff.mp (List.getElem?_map.symm.trans hpart)
  obtain ⟨hlt, rfl⟩ := List.getElem?_eq_some_iff.mp hi
  rw [length_range] at hlt
  rw [getElem_range] at heq
  cases heq
  rw [Shape.size_node, ← Nat.succ_mul]
  exact LayoutRules.mul_size_le_vectorExtent hlt hk element

/-- A part that there is room for lies inside the type, and the parts after it lie behind
it. -/
theorem shapeParts_sheltered (h : t.hasRoomFor rules k) :
    Sheltered (t.size rules) (t.shapeParts rules) k := by
  cases t with
  | vector element count =>
    refine vectorParts_sheltered fun hrules => ?_
    simpa [hasRoomFor, hrules] using h
  | matrix columns rows =>
    refine Apart.sheltered ?_ k
    rw [shapeParts, shape, childOffsets, map_map]
    exact apart_strided (Extent.size_le_stride (rules.vectorExtent_align_pos _ _)) (Nat.le_refl _)
  | array element count =>
    refine Apart.sheltered ?_ k
    rw [shapeParts, shape, childOffsets, map_map]
    refine apart_strided ?_ (Nat.le_refl _)
    rw [shape_size]
    exact Extent.size_le_stride (extent_align_pos rules element)
  | struct name fields =>
    refine Apart.sheltered ?_ k
    rw [← shape_size, shapeParts, shape_struct]
    exact structParts_apart rules (fields.map Prod.snd)
  | _ => exact (shapeParts_apart fun _ => rfl).sheltered k

end ValueType

/-! ## Leaves -/

namespace Layout

variable {l : Layout} {r : IndexResolver} {rules : LayoutRules}

/-- A leaf stands at the end of a path, before an offset of the block. -/
def Holds (l : Layout) (block : Bytes) (path : List Nat) (start : Nat) (d : LeafData)
    (limit : Nat) : Prop :=
  ∃ address e, l.address? path start = some address ∧ l.entry? address = some e ∧
    e.offset + e.size ≤ limit ∧ LeafData.decode? e.kind (block.read e.offset e.size) = some d

namespace Holds

variable {block block' : Bytes} {path : List Nat} {start limit : Nat} {d : LeafData}

/-- A leaf that stands in a block is read. -/
theorem readLeaf? (h : l.Holds block path start d limit) :
    l.readLeaf? block path start = some d := by
  obtain ⟨address, e, haddress, hentry, -, hdecode⟩ := h
  unfold Layout.readLeaf? Layout.readAt?
  rw [haddress, Option.bind_some, hentry]
  exact hdecode

/-- A leaf stays where it stands while bytes behind it are changed. -/
theorem of_changedOnly (h : l.Holds block path start d limit) {cut : Nat}
    (hchanged : Bytes.ChangedOnly (fun i => cut ≤ i) block block') (hcut : limit ≤ cut) :
    l.Holds block' path start d limit := by
  obtain ⟨address, e, haddress, hentry, hlimit, hdecode⟩ := h
  refine ⟨address, e, haddress, hentry, hlimit, ?_⟩
  rw [← hdecode]
  congr 1
  exact Bytes.read_congr fun hle hlt => hchanged.outside (by omega)

theorem mono (h : l.Holds block path start d limit) {higher : Nat} (hle : limit ≤ higher) :
    l.Holds block path start d higher := by
  obtain ⟨address, e, haddress, hentry, hlimit, hdecode⟩ := h
  exact ⟨address, e, haddress, hentry, Nat.le_trans hlimit hle, hdecode⟩

theorem cons {k next : Nat} (h : l.Holds block path next d limit)
    (hnext : l.child? k start = some next) : l.Holds block (k :: path) start d limit := by
  obtain ⟨address, e, haddress, h⟩ := h
  refine ⟨address, e, ?_, h⟩
  rw [address?, hnext]
  exact haddress

end Holds

/-- A literal has as many bytes as the type of its kind has room for. -/
theorem length_leafBytes {bytes : Bytes} (hkind : v.kind = t.kind)
    (hbytes : leafBytes r (t.size rules) v = .ok bytes) : bytes.length = t.size rules := by
  cases v with
  | bool b =>
    cases t <;> cases hkind
    cases hbytes
    cases rules
    · rfl
    · exact Bytes.length_littleEndian 4 _
  | int n | enum n | float x | texture name shape | lightProfile name | bsdfMeasurement name =>
    cases hbytes
    cases t <;> cases hkind
    exact Bytes.length_littleEndian 4 _
  | double x =>
    cases hbytes
    cases t <;> cases hkind
    exact Bytes.length_littleEndian 8 _
  | string text =>
    rw [leafBytes] at hbytes
    split at hbytes
    · cases hbytes
      cases t <;> cases hkind
      exact Bytes.length_littleEndian 4 _
    · cases hbytes
  | vector | matrix | color | array | struct => cases hbytes

/-! ## Packing -/

/-- Packing a list of literals packs each of them, and after it those behind it. -/
theorem pack_of_packAll {values : List Value} {first : Nat}
    (h : (l.packAll r values first).run block = (.ok (), block')) (hk : values[k]? = some v) :
    ∃ mid mid', (l.pack r v (first + k)).run mid = (.ok (), mid') ∧
      (l.packAll r (values.drop (k + 1)) (first + (k + 1))).run mid' = (.ok (), block') := by
  induction values generalizing first k block with
  | nil => cases hk
  | cons head rest ih =>
    rw [packAll] at h
    obtain ⟨_, mid, hhead, hrest⟩ := run_bind_eq_ok h
    cases k with
    | zero =>
      cases hk
      exact ⟨block, mid, hhead, hrest⟩
    | succ k =>
      obtain ⟨before, after, hpack, hmore⟩ := ih hrest hk
      rw [Nat.add_assoc, Nat.add_comm 1] at hpack hmore
      exact ⟨before, after, hpack, hmore⟩

/-- A part of a literal that was packed: where it was packed, and what was packed after it. -/
structure PartPacked (l : Layout) (r : IndexResolver) (used : Nat → Prop) (v part : Value)
    (children : List (Nat × Shape)) (k address offset : Nat) (block' : Bytes)
    (first o : Nat) (s : Shape) (mid mid' : Bytes) : Prop where
  child : children[k]? = some (o, s)
  count : v.children.length = children.length
  next : l.child? k address = some (first + k)
  parts : ∀ {k o : Nat} {s : Shape}, children[k]? = some (o, s) →
    Represents l.nodes used s (first + k) (offset + o)
  here : (l.pack r part (first + k)).run mid = (.ok (), mid')
  after : (l.packAll r (v.children.drop (k + 1)) (first + (k + 1))).run mid' = (.ok (), block')

theorem exists_partPacked {kind : ValueKind} {size : Nat} {children : List (Nat × Shape)}
    {part : Value} (hnodes : Represents l.nodes used (.node kind size children) address offset)
    (hrun : (l.pack r v address).run block = (.ok (), block'))
    (hpart : v.children[k]? = some part) :
    ∃ first o s mid mid', PartPacked l r used v part children k address offset block' first o s
      mid mid' := by
  have hcompound : v.kind.isCompound = true := by
    by_contra hleaf
    rw [Value.children_eq_nil (by simpa using hleaf)] at hpart
    cases hpart
  obtain ⟨n, hn, _, hcount, hrun⟩ := packAll_of_pack hcompound hrun
  cases hnodes with
  | @node _ _ _ first _ _ here _ parts =>
    cases here.symm.trans hn
    obtain ⟨mid, mid', hhere, hafter⟩ := pack_of_packAll hrun hpart
    have hlt : k < children.length := by
      rw [← show v.children.length = children.length from hcount]
      exact (List.getElem?_eq_some_iff.mp hpart).1
    have hnext : l.child? k address = some (first + k) := by
      simp only [child?, here]
      exact if_pos hlt
    exact ⟨first, children[k].1, children[k].2, mid, mid', getElem?_eq_getElem hlt, hcount,
      hnext, parts, hhere, hafter⟩

/-- What is packed after a sheltered part lies behind it. -/
theorem PartPacked.changedOnly {part : Value} {children : List (Nat × Shape)} {first o size : Nat}
    {s : Shape} {mid mid' : Bytes}
    (h : PartPacked l r used v part children k address offset block' first o s mid mid')
    (hshelter : Sheltered size children k) :
    Bytes.ChangedOnly (fun i => offset + (o + s.size) ≤ i) mid' block' := by
  have hbehind : Touches (fun i => offset + (o + s.size) ≤ i) True
      (l.packAll r (v.children.drop (k + 1)) (first + (k + 1))) := by
    refine packAll_touches fun {j later} hj => ?_
    rw [getElem?_drop] at hj
    have hlt : k + 1 + j < children.length := h.count ▸ (List.getElem?_eq_some_iff.mp hj).1
    have hc : children[k + 1 + j]? = some (_, _) := getElem?_eq_getElem hlt
    have hle := hshelter.before (by omega) h.child hc
    rw [Nat.add_assoc]
    exact (pack_touches (h.parts hc) later).mono (fun hi => by omega) fun _ => trivial
  have hchanged := (hbehind mid').1
  rwa [h.after] at hchanged

/-- A literal without parts that was packed stands in the block. -/
theorem holds_of_packLeaf (hnodes : Represents l.nodes used (t.shape rules) address offset)
    (hrun : (l.pack r v address).run block = (.ok (), block')) (hv : v.kind.isCompound = false) :
    ∃ d, LeafData.ofValue? r v = some d ∧ l.Holds block' [] address d (offset + t.size rules) := by
  rw [pack_leaf hv] at hrun
  obtain ⟨n, bytes, hn, hkind, hbytes, hsplice⟩ := leafBytes_of_packLeaf hrun
  rw [ValueType.shape_eq_node] at hnodes
  have hentry := hnodes.entry?
  cases hnodes with
  | node here _ _ =>
    cases here.symm.trans hn
    have hlength := length_leafBytes hkind hbytes
    have hfit : offset + bytes.length ≤ block.length := by
      by_contra hout
      rw [Bytes.splice?, if_neg hout] at hsplice
      cases hsplice
    obtain ⟨written, hwritten, _, hread⟩ := Bytes.splice?_of_le hfit
    cases hwritten.symm.trans hsplice
    rw [hlength] at hread
    obtain ⟨d, hd, hdecode⟩ := decode?_leafBytes hbytes
    refine ⟨d, hd, address, _, rfl, hentry, Nat.le_refl _, ?_⟩
    dsimp only
    rw [hread, ← hdecode, hkind]

/-- A literal that was packed has the leaves in the block that there is room for. -/
theorem holds_of_pack {leaf : Value} {path : List Nat} (hroom : t.hasRoomAlong rules path)
    (hnodes : Represents l.nodes used (t.shape rules) address offset)
    (hrun : (l.pack r v address).run block = (.ok (), block')) (hpart : v.part? path = some leaf)
    (hleaf : leaf.kind.isCompound = false) :
    ∃ d, LeafData.ofValue? r leaf = some d ∧
      l.Holds block' path address d (offset + t.size rules) := by
  induction path generalizing v t address offset block block' with
  | nil =>
    cases hpart
    exact holds_of_packLeaf hnodes hrun hleaf
  | cons k rest ih =>
    rw [Value.part?] at hpart
    split at hpart
    · rename_i part hchild
      rw [ValueType.shape_eq_node] at hnodes
      obtain ⟨first, o, s, mid, mid', hpacked⟩ := exists_partPacked hnodes hrun hchild
      obtain ⟨u, hu, rfl⟩ := ValueType.childType_of_shapeParts hpacked.child
      simp only [ValueType.hasRoomAlong, hu, Bool.and_eq_true] at hroom
      obtain ⟨d, hd, hholds⟩ := ih hroom.2 (hpacked.parts hpacked.child) hpacked.here hpart
      have hshelter := ValueType.shapeParts_sheltered hroom.1
      have hinside := hshelter.inside hpacked.child
      have hafter := hpacked.changedOnly hshelter
      rw [ValueType.shape_size] at hinside hafter
      exact ⟨d, hd, ((hholds.of_changedOnly hafter (by omega)).cons hpacked.next).mono (by omega)⟩
    · cases hpart

/-! ## Filling -/

/-- Clearing an address changes nothing before its place. -/
theorem clear_changedOnly {s : Shape} (hnodes : Represents l.nodes used s address offset)
    (block : Bytes) : Bytes.ChangedOnly (fun i => offset ≤ i) block (l.clear address block) := by
  obtain ⟨kind, size, children⟩ := s
  unfold clear
  rw [hnodes.entry?]
  dsimp only
  by_cases hfit : offset + (Bytes.zeros size).length ≤ block.length
  · obtain ⟨block', hsplice, hchanged, _⟩ := Bytes.splice?_of_le hfit
    rw [hsplice]
    exact hchanged.mono fun hi => hi.1
  · rw [Bytes.splice?, if_neg hfit]
    exact .refl _ block

section Filling

variable {used : Nat → Prop} {kind : ValueKind} {size : Nat} {children : List (Nat × Shape)}

/-- Filling parameters from an index on changes nothing before their offsets, also where a
value cannot be packed. -/
theorem fillPartialFrom_changedOnly
    (hnodes : Represents l.nodes used (.node kind size children) root 0) {cut : Nat}
    (values : List Value) (index : Nat)
    (hcut : ∀ {k o : Nat} {s : Shape}, index ≤ k → children[k]? = some (o, s) → cut ≤ o)
    (block : Bytes) :
    Bytes.ChangedOnly (fun i => cut ≤ i) block (l.fillPartialFrom r index values block).2 := by
  induction values generalizing index block with
  | nil => exact .refl _ block
  | cons v rest ih =>
    have ih := fun block => ih (index + 1) (fun hk => hcut (Nat.le_of_succ_le hk)) block
    rw [fillPartialFrom]
    split
    · exact ih block
    · rename_i address haddress
      obtain ⟨o, s, hk, hpart⟩ := represents_of_child? hnodes haddress
      have hle := hcut (Nat.le_refl index) hk
      have hpacked : Bytes.ChangedOnly (fun i => cut ≤ i) block
          (l.setValue r v address block).2 :=
        (pack_touches hpart v block).1.mono fun hi => by omega
      split
      · rename_i mid hset
        rw [hset] at hpacked
        exact hpacked.trans (ih mid)
      · rename_i e mid hset
        rw [hset] at hpacked
        have hcleared := (clear_changedOnly hpart mid).mono
          (fun hi => by omega : ∀ {i : Nat}, 0 + o ≤ i → cut ≤ i)
        exact (hpacked.trans hcleared).trans (ih _)

/-- A value that did not fail was packed into its place, and what was packed later lies
behind it. -/
theorem exists_packed_of_fillPartialFrom
    (hnodes : Represents l.nodes used (.node kind size children) root 0)
    (hapart : Apart size children) (values : List Value) (index : Nat) (block : Bytes) {i : Nat}
    (hv : values[i]? = some v)
    (hpacked : index + i ∉ (l.fillPartialFrom r index values block).1.map Prod.fst) :
    ∃ o s address mid mid', children[index + i]? = some (o, s) ∧
      l.child? (index + i) root = some address ∧ Represents l.nodes used s address o ∧
      (l.pack r v address).run mid = (.ok (), mid') ∧
      Bytes.ChangedOnly (fun j => o + s.size ≤ j) mid'
        (l.fillPartialFrom r index values block).2 := by
  induction values generalizing index block i with
  | nil => cases hv
  | cons first rest ih =>
    have hnext : ∀ i, index + (i + 1) = index + 1 + i := by omega
    cases haddress : l.child? index root with
    | none =>
      simp only [fillPartialFrom, haddress] at hpacked ⊢
      cases i with
      | zero => simp at hpacked
      | succ i =>
        rw [hnext i] at hpacked ⊢
        exact ih (index + 1) _ hv fun hmem => hpacked (mem_cons_of_mem _ hmem)
    | some address =>
      obtain ⟨o, s, hk, hrepresents⟩ := represents_of_child? hnodes haddress
      rcases hset : l.setValue r first address block with ⟨e | u, mid⟩
      · simp only [fillPartialFrom, haddress, hset] at hpacked ⊢
        cases i with
        | zero => simp at hpacked
        | succ i =>
          rw [hnext i] at hpacked ⊢
          exact ih (index + 1) _ hv fun hmem => hpacked (mem_cons_of_mem _ hmem)
      · simp only [fillPartialFrom, haddress, hset] at hpacked ⊢
        cases i with
        | zero =>
          cases hv
          rw [Nat.zero_add] at hrepresents
          exact ⟨o, s, address, block, mid, hk, haddress, hrepresents, hset,
            fillPartialFrom_changedOnly hnodes rest (index + 1)
              (fun hle hj => hapart.ordered (Nat.lt_of_succ_le hle) hk hj) mid⟩
        | succ i =>
          rw [hnext i] at hpacked ⊢
          exact ih (index + 1) mid hv hpacked

end Filling

/-- How the value of a parameter was packed: at its address, and then not written over. -/
structure ParameterPacked (l : Layout) (r : IndexResolver) (rules : LayoutRules) (p : Parameter)
    (v : Value) (i : Nat) (block : Bytes) (address offset : Nat) (mid mid' : Bytes) : Prop where
  child : l.child? i root = some address
  nodes : Represents l.nodes (fun _ => True) (p.type.shape rules) address offset
  packed : (l.pack r v address).run mid = (.ok (), mid')
  after : Bytes.ChangedOnly (fun j => offset + p.type.size rules ≤ j) mid' block

/-- Filling the block of some parameters packs every value that does not fail. -/
theorem exists_parameterPacked {parameters : List Parameter}
    (hbuild : build parameters rules = .ok l) {values : List Value} {i : Nat}
    (hv : values[i]? = some v) (hpacked : i ∉ (l.fillPartial r values block).1.map Prod.fst) :
    ∃ p address offset mid mid', parameters[i]? = some p ∧
      ParameterPacked l r rules p v i (l.fillPartial r values block).2 address offset mid mid' := by
  obtain ⟨_, hnodes⟩ := represents_of_build hbuild
  obtain ⟨o, s, address, mid, mid', hk, hchild, hrepresents, hrun, hafter⟩ :=
    exists_packed_of_fillPartialFrom hnodes (ValueType.structParts_apart rules _) values 0 block hv
      (by rwa [Nat.zero_add])
  rw [Nat.zero_add] at hk hchild
  have hshape := (getElem?_zip_eq_some.mp hk).2
  rw [map_map, getElem?_map] at hshape
  obtain ⟨p, hp, rfl⟩ := Option.map_eq_some_iff.mp hshape
  rw [Function.comp_apply, ValueType.shape_size] at hafter
  exact ⟨p, address, o, mid, mid', hp, hchild, hrepresents, hrun, hafter⟩

namespace ParameterPacked

variable {p : Parameter} {v leaf : Value} {i address offset : Nat} {block mid mid' : Bytes}
  {path : List Nat}

/-- A leaf that stood in the block after the parameter was packed is read from it in the
end. -/
theorem readLeaf?_of_holds
    (h : ParameterPacked l r rules p v i block address offset mid mid') {d : LeafData}
    (hholds : l.Holds mid' path address d (offset + p.type.size rules)) :
    l.readLeaf? block (i :: path) root = some d :=
  ((hholds.of_changedOnly h.after (Nat.le_refl _)).cons h.child).readLeaf?

/-- The leaves of a parameter that was packed are read back, as far as there is room for
them. -/
theorem readLeaf? (h : ParameterPacked l r rules p v i block address offset mid mid')
    (hroom : p.type.hasRoomAlong rules path) (hpart : v.part? path = some leaf)
    (hleaf : leaf.kind.isCompound = false) :
    ∃ d, LeafData.ofValue? r leaf = some d ∧ l.readLeaf? block (i :: path) root = some d := by
  obtain ⟨d, hd, hholds⟩ := holds_of_pack hroom h.nodes h.packed hpart hleaf
  exact ⟨d, hd, h.readLeaf?_of_holds hholds⟩

end ParameterPacked

end Layout

end Shading
