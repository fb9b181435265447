import Shading.Proofs.Layout.Confinement
import Shading.Proofs.Layout.Regions

/-!
# Packing accepts what conforms

A literal is checked in two ways.  Conformance goes down the type: the kinds agree, and a
compound literal has as many parts as the type.  Packing goes down the nodes of a layout, and
looks at the kinds and the counts that stand there.  Both accept the same literals, except
that packing needs an id for every string.

Main results:

- Theorem `Value.conformsTo_of_parts`: a literal conforms if it agrees with the type in kind
  and count, and its parts conform.
- Theorem `Layout.conformsTo_of_pack`: what was packed conforms.
- Theorem `Layout.pack_eq_ok_iff`: what can be packed.
- Theorem `packing_accepts_what_conforms`: this for the parameters of a block.
-/

namespace Shading

open List

/-! ## Conformance, part by part -/

namespace Value

theorem allConformTo_iff {parts : List Value} {t : ValueType} :
    allConformTo parts t = true ↔ ∀ part ∈ parts, part.conformsTo t = true := by
  induction parts with
  | nil => simp [allConformTo]
  | cons v rest ih => simp [allConformTo, ih]

theorem eachConformsTo_of_parts {parts : List Value} {fields : List (String × ValueType)}
    (hcount : parts.length = fields.length)
    (hparts : ∀ {k : Nat} {part : Value} {f : String × ValueType}, parts[k]? = some part →
      fields[k]? = some f → part.conformsTo f.2 = true) : eachConformsTo parts fields = true := by
  induction parts generalizing fields with
  | nil =>
    cases fields with
    | nil => rfl
    | cons f fields => cases hcount
  | cons v rest ih =>
    cases fields with
    | nil => cases hcount
    | cons f fields =>
      have hrest : eachConformsTo rest fields = true := by
        apply ih (Nat.succ.inj hcount)
        intro k part f' hpart hf'
        exact hparts (getElem?_cons_succ.trans hpart) (getElem?_cons_succ.trans hf')
      rw [eachConformsTo, hrest, Bool.and_true]
      exact hparts (k := 0) rfl rfl

/-- A literal conforms to a type if the two agree in kind and number of parts, and its parts
conform to those of the type. -/
theorem conformsTo_of_parts {v : Value} {t : ValueType} (hkind : v.kind = t.kind)
    (hcount : v.children.length = t.childCount)
    (hparts : ∀ {k : Nat} {part : Value} {u : ValueType}, v.children[k]? = some part →
      t.childType k = some u → part.conformsTo u = true) : v.conformsTo t = true := by
  -- The parts of a vector, a matrix or an array all have one type.
  have hall : ∀ u, (∀ k < t.childCount, t.childType k = some u) →
      allConformTo v.children u = true := by
    intro u hu
    rw [allConformTo_iff]
    intro part hpart
    obtain ⟨k, hk⟩ := mem_iff_getElem?.mp hpart
    have hlt := (List.getElem?_eq_some_iff.mp hk).1
    exact hparts hk (hu k (hcount ▸ hlt))
  cases v with
  | vector parts | matrix parts | array parts =>
    cases t <;> cases hkind
    rw [conformsTo, Bool.and_eq_true, beq_iff_eq]
    exact ⟨hcount, hall _ fun k hk => if_pos hk⟩
  | struct parts =>
    cases t <;> cases hkind
    rw [conformsTo]
    apply eachConformsTo_of_parts hcount
    intro k part f hpart hf
    exact hparts hpart (congrArg (Option.map Prod.snd) hf)
  | _ =>
    cases t <;> cases hkind
    rfl

end Value

theorem ValueType.childCount_eq_zero {t : ValueType} (ht : t.kind.isCompound = false) :
    t.childCount = 0 := by
  cases t <;> first | rfl | cases ht

theorem ValueType.entryAt_shape (rules : LayoutRules) (t : ValueType) (offset : Nat) :
    (t.shape rules).entryAt offset = ⟨t.kind, t.size rules, offset⟩ := by
  rw [shape_eq_node, Shape.entryAt]

/-! ## Packing -/

namespace Layout

variable {l : Layout} {r : IndexResolver} {rules : LayoutRules}

/-- What was packed where a layout has a type conforms to the type. -/
theorem conformsTo_of_pack {used : Nat → Prop} {t : ValueType} {address offset : Nat}
    (hnodes : Represents l.nodes used (t.shape rules) address offset) {v : Value}
    {block block' : Bytes} (h : (l.pack r v address).run block = (.ok (), block')) :
    v.conformsTo t = true := by
  -- By induction on the nodes, as for confinement.
  generalize hs : t.shape rules = s at hnodes
  induction hnodes generalizing t v block block' with
  | @node kind size children first address offset here mine parts ih =>
    rw [ValueType.shape_eq_node] at hs
    cases hs
    by_cases hv : v.kind.isCompound = true
    · obtain ⟨n, hn, hkind, hcount, hrun⟩ := packAll_of_pack hv h
      cases here.symm.trans hn
      apply Value.conformsTo_of_parts hkind
      · exact hcount.trans (ValueType.length_shapeParts rules t)
      · intro k part u hpart hu
        obtain ⟨mid, mid', hpacked, -⟩ := pack_of_packAll hrun hpart
        obtain ⟨o, -, hk⟩ := ValueType.shapeParts_of_childType rules hu
        exact ih hk hpacked rfl
    · rw [Bool.not_eq_true] at hv
      rw [pack_leaf hv] at h
      obtain ⟨n, -, hn, hkind, -, -⟩ := leafBytes_of_packLeaf h
      cases here.symm.trans hn
      have hleaf : t.kind.isCompound = false := by
        rw [← show v.kind = t.kind from hkind]
        exact hv
      have hnil := Value.children_eq_nil hv
      apply Value.conformsTo_of_parts hkind
      · rw [hnil, ValueType.childCount_eq_zero hleaf]
        rfl
      · intro k part u hpart
        rw [hnil] at hpart
        cases hpart

/-- A literal is packed where a layout has a type exactly if it conforms to the type and all
its strings have ids. -/
theorem pack_eq_ok_iff {used : Nat → Prop} {t : ValueType} {address offset : Nat}
    (hnodes : Represents l.nodes used (t.shape rules) address offset)
    (hfits : (t.shape rules).Fits) {v : Value} {block : Bytes}
    (hroom : offset + t.size rules ≤ block.length) :
    ((l.pack r v address).run block).1 = .ok () ↔
      v.conformsTo t = true ∧ ∀ text ∈ v.strings, ∃ id, r.stringIndex text = some id := by
  constructor
  · intro h
    have hrun : (l.pack r v address).run block =
        (.ok (), ((l.pack r v address).run block).2) :=
      Prod.ext h rfl
    refine ⟨conformsTo_of_pack hnodes hrun, fun text htext => ?_⟩
    exact resolves_of_pack v hrun text (Value.mem_strings.mp htext)
  · rintro ⟨hv, hstrings⟩
    have hresolves : r.Resolves v.flatten :=
      fun text htext => hstrings text (Value.mem_strings.mpr htext)
    rw [← ValueType.shape_size] at hroom
    obtain ⟨block', hrun, -⟩ :=
      (encodable_of_conformsTo v t hv hresolves).packsAs hfits hnodes hroom
    rw [hrun]

/-! ## Parameters -/

/-- The bytes of a parameter. -/
def Covers (l : Layout) (i j : Nat) : Prop :=
  ∃ e, l.parameter? i = some e ∧ e.offset ≤ j ∧ j < e.offset + e.size

/-- A parameter of a layout: its address, the type that is represented there, and its range,
which lies inside the block. -/
structure ParameterAt (l : Layout) (rules : LayoutRules) (t : ValueType) (i address offset : Nat) :
    Prop where
  child : l.child? i root = some address
  nodes : Represents l.nodes (fun _ => True) (t.shape rules) address offset
  fits : (t.shape rules).Fits
  below : offset + t.size rules ≤ l.size

theorem exists_parameterAt {parameters : List Parameter} (hbuild : build parameters rules = .ok l)
    (hnarrow : rules = .gpuStorage → ∀ p ∈ parameters, p.type.narrow = true) {i : Nat}
    {p : Parameter} (hp : parameters[i]? = some p) :
    ∃ address offset, l.ParameterAt rules p.type i address offset := by
  have hblock := (represents_of_build hbuild).2
  have hfits := blockType_fits hnarrow
  rw [← shape_blockType] at hblock
  obtain ⟨o, address, -, hchild, hnodes⟩ := hblock.part (childType_blockType hp)
  have hsize : l.size = (blockType parameters).size rules := by
    rw [size_of_entry_eq hblock.entry?_eq, ValueType.entryAt_shape]
  rw [Nat.zero_add] at hnodes
  have hpath : l.address? [i] root = some address := by
    rw [address?, hchild]
    rfl
  have hinside := (hfits.contains hblock hpath hnodes.entry?_eq).2
  simp only [ValueType.entryAt_shape] at hinside
  refine ⟨address, o, hchild, hnodes, ValueType.shape_fits p.type fun hrules => ?_, by omega⟩
  exact hnarrow hrules p (mem_of_getElem? hp)

namespace ParameterAt

variable {t : ValueType} {i address offset : Nat}

theorem entry?_eq (h : l.ParameterAt rules t i address offset) :
    l.entry? address = some ⟨t.kind, t.size rules, offset⟩ := by
  rw [h.nodes.entry?_eq, ValueType.entryAt_shape]

theorem parameter?_eq (h : l.ParameterAt rules t i address offset) :
    l.parameter? i = some ⟨t.kind, t.size rules, offset⟩ := by
  rw [parameter?, h.child]
  exact h.entry?_eq

theorem covers_iff (h : l.ParameterAt rules t i address offset) {j : Nat} :
    l.Covers i j ↔ offset ≤ j ∧ j < offset + t.size rules := by
  unfold Covers
  rw [h.parameter?_eq]
  simp

/-- The leaves of a parameter lie in its range. -/
theorem covers_of_onLeaf (h : l.ParameterAt rules t i address offset) {j : Nat}
    (hj : l.OnLeaf address j) : l.Covers i j := by
  obtain ⟨path, last, e, hlast, he, -, hle, hlt⟩ := hj
  have hcontains := h.fits.contains h.nodes hlast he
  simp only [ValueType.entryAt_shape, LayoutEntry.Contains] at hcontains
  rw [h.covers_iff]
  omega

/-- Packing a parameter is confined to its range. -/
theorem confined (h : l.ParameterAt rules t i address offset) (r : IndexResolver) (v : Value) :
    Confined (l.Covers i) l.size (l.pack r v address) :=
  (pack_confined h.nodes h.fits v).mono h.covers_of_onLeaf h.below

end ParameterAt

end Layout

/-- Packing succeeds exactly on conforming values.  Take the layout of parameters without
distributions, under the storage rules with no vector longer than four, and a block that is
long enough.  A value can be packed into a parameter exactly if it conforms to the type of the
parameter and every string in it has an id.  No address is ever missed, and whether packing
succeeds or fails, all bytes outside the range of the parameter are unchanged. -/
theorem packing_accepts_what_conforms {parameters : List Parameter} (rules : LayoutRules)
    (hstorable : ∀ p ∈ parameters, p.type.distribution? = none)
    (hnarrow : rules = .gpuStorage → ∀ p ∈ parameters, p.type.narrow = true) :
    ∃ layout, Layout.build parameters rules = .ok layout ∧
      ∀ (r : IndexResolver) (i : Nat) (p : Parameter) (v : Value) (block : Bytes),
        parameters[i]? = some p → layout.size ≤ block.length →
        ∃ address e, layout.child? i Layout.root = some address ∧
          layout.entry? address = some e ∧
          ((layout.setValue r v address block).1 = .ok () ↔
            v.conformsTo p.type = true ∧
              ∀ text ∈ v.strings, ∃ id, r.stringIndex text = some id) ∧
          (layout.setValue r v address block).1 ≠ .error .invalidAddress ∧
          (layout.setValue r v address block).2.length = block.length ∧
          ∀ j, ¬ (e.offset ≤ j ∧ j < e.offset + e.size) →
            (layout.setValue r v address block).2[j]? = block[j]? := by
  obtain ⟨layout, hbuild, -⟩ := Layout.represents_build rules hstorable
  refine ⟨layout, hbuild, fun r i p v block hp hroom => ?_⟩
  obtain ⟨address, offset, hparameter⟩ := Layout.exists_parameterAt hbuild hnarrow hp
  have hconfined := hparameter.confined r v
  have htouched := (hconfined.touches block).1
  refine ⟨address, _, hparameter.child, hparameter.entry?_eq, ?_, ?_, ?_, ?_⟩
  · exact Layout.pack_eq_ok_iff hparameter.nodes hparameter.fits
      (Nat.le_trans hparameter.below hroom)
  · exact hconfined.found hroom
  · exact htouched.length_eq
  · intro j hj
    apply htouched.outside
    rw [hparameter.covers_iff]
    exact hj

/-- A layer like the one of the coat, whose second name has no id. -/
def halfCoat : Value :=
  .struct [.vector [.float 1, .float 2, .float 4], .array [.string "base", .string "lost"],
    .matrix [.vector [.float 1, .float 2, .float 4], .vector [.float 8, .float 16, .float 32]],
    .bool true]

/-- The layer of the coat is packed.  The other one conforms as well, but packing it stops at
the second name. -/
theorem packing_accepts_what_conforms_halfCoat :
    (∀ p ∈ coatParameters, p.type.distribution? = none) ∧
      (∀ p ∈ coatParameters, p.type.narrow = true) ∧
      ∃ layout p address, Layout.build coatParameters .gpuStorage = .ok layout ∧
        coatParameters[0]? = some p ∧ layout.child? 0 Layout.root = some address ∧
        (layout.setValue coatResolver p.value address layout.newBlock).1 = .ok () ∧
        halfCoat.conformsTo p.type = true ∧
        (layout.setValue coatResolver halfCoat address layout.newBlock).1 ≠ .ok () ∧
        (layout.setValue coatResolver halfCoat address layout.newBlock).1
          ≠ .error .invalidAddress := by
  have hstorable : ∀ p ∈ coatParameters, p.type.distribution? = none := by decide
  have hnarrow : ∀ p ∈ coatParameters, p.type.narrow = true := by decide
  obtain ⟨layout, hbuild, hpack⟩ :=
    packing_accepts_what_conforms .gpuStorage hstorable fun _ => hnarrow
  have hroom : layout.size ≤ layout.newBlock.length := by
    simp [Layout.newBlock, Bytes.zeros]
  obtain ⟨p, hp⟩ : ∃ p, coatParameters[0]? = some p := ⟨_, rfl⟩
  obtain ⟨address, _, hchild, _, hok, _⟩ := hpack coatResolver 0 p p.value _ hp hroom
  obtain ⟨address', _, hchild', _, hfails, hfound, _⟩ :=
    hpack coatResolver 0 p halfCoat _ hp hroom
  cases hchild.symm.trans hchild'
  cases hp
  have hknown : ∀ text ∈ ["base", "coat"], (coatResolver.stringIndex text).isSome = true := by
    decide
  have hlost : coatResolver.stringIndex "lost" = none := by decide
  refine ⟨hstorable, hnarrow, layout, _, address, hbuild, rfl, hchild, ?_, rfl, ?_, hfound⟩
  · rw [hok]
    exact ⟨rfl, fun text htext => Option.isSome_iff_exists.mp (hknown text htext)⟩
  · rw [ne_eq, hfails]
    rintro ⟨-, hstrings⟩
    obtain ⟨id, hid⟩ := hstrings "lost" (by decide)
    rw [hlost] at hid
    cases hid

end Shading
