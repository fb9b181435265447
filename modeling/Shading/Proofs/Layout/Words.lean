import Mathlib
import Shading.Layout.Words
import Shading.Proofs.Fragment.Parameters
import Shading.Proofs.Layout.Geometry

/-!
# Layouts that fit in words

A literal of a type has as many nodes as the type, and a type takes at most 64 bytes for each of
its nodes.  So a layout fits in words if the values of the parameters are few enough.  One kind of
type escapes this: what an empty array would hold has no values, but its size is computed.

Main definitions:

- `ValueType.nodeCount` counts the nodes of the literals of a type.
- `ValueType.FitsInWords` says that a type is measured in words as it is without a limit, and
  `ValueType.EmptyFit` that this holds of what empty arrays and matrices would hold.

Main results:

- Theorem `ValueType.extent_bounds`: 64 bytes for each node suffice.
- Theorems `ValueType.fitsInWords` and `ValueType.shape_inWords`: types of few nodes fit.
- Theorem `layout_fits_in_words`: so does the layout of the parameters of a material.
-/

namespace Shading

open List

variable {rules : LayoutRules}

/-! ## Nodes -/

namespace ValueType

mutual

/-- The number of nodes of the literals of a type. -/
def nodeCount : ValueType → Nat
  | .vector _ count => 1 + count
  | .matrix columns rows => 1 + columns * (1 + rows)
  | .array element count => 1 + count * nodeCount element
  | .struct _ fields => 1 + fieldsNodeCount fields
  | _ => 1

/-- The number of nodes of literals of the types of a field list. -/
def fieldsNodeCount : List (String × ValueType) → Nat
  | [] => 0
  | (_, t) :: rest => nodeCount t + fieldsNodeCount rest

end

end ValueType

mutual

theorem Value.length_flatten (v : Value) (t : ValueType) (h : v.conformsTo t = true) :
    v.flatten.length = t.nodeCount := by
  cases v with
  | vector parts =>
    cases t <;> try cases h
    rename_i element count
    rw [conformsTo, Bool.and_eq_true, beq_iff_eq] at h
    have hparts := length_flattenAll parts (.ofScalar element) h.2
    have hone : (ValueType.ofScalar element).nodeCount = 1 := by cases element <;> rfl
    simp only [flatten, length_cons, ValueType.nodeCount, hparts, hone, h.1]
    omega
  | matrix parts | array parts =>
    cases t <;> try cases h
    rw [conformsTo, Bool.and_eq_true, beq_iff_eq] at h
    have hparts := length_flattenAll parts _ h.2
    simp only [flatten, length_cons, ValueType.nodeCount, hparts, h.1]
    omega
  | struct parts =>
    cases t <;> try cases h
    rw [conformsTo] at h
    have hparts := length_flattenEach parts _ h
    simp only [flatten, length_cons, ValueType.nodeCount, hparts]
    omega
  | _ => cases t <;> first | rfl | cases h

theorem Value.length_flattenAll (parts : List Value) (t : ValueType)
    (h : allConformTo parts t = true) : (flattenAll parts).length = parts.length * t.nodeCount := by
  cases parts with
  | nil => simp [flattenAll]
  | cons v rest =>
    rw [allConformTo, Bool.and_eq_true] at h
    rw [flattenAll, length_append, length_flatten v t h.1, length_flattenAll rest t h.2,
      length_cons, Nat.succ_mul, Nat.add_comm]

theorem Value.length_flattenEach (parts : List Value) (fields : List (String × ValueType))
    (h : eachConformsTo parts fields = true) :
    (flattenAll parts).length = ValueType.fieldsNodeCount fields := by
  cases parts with
  | nil => cases fields <;> first | rfl | cases h
  | cons v rest =>
    cases fields with
    | nil => cases h
    | cons f fields =>
      rw [eachConformsTo, Bool.and_eq_true] at h
      rw [flattenAll, length_append, length_flatten v f.2 h.1,
        length_flattenEach rest fields h.2, ValueType.fieldsNodeCount]

end

/-! ## Bounds -/

theorem roundUp_le (n : Nat) {align : Nat} (h : align ≤ 32) : roundUp n align ≤ n + 31 := by
  have := Nat.div_mul_le_self (n + align - 1) align
  unfold roundUp
  omega

theorem LayoutRules.vectorExtent_bounds (rules : LayoutRules) (element : ScalarType)
    (count : Nat) : (rules.vectorExtent element count).size + 31 ≤ 64 * (1 + count) ∧
      (rules.vectorExtent element count).align ≤ 32 := by
  unfold vectorExtent
  cases rules <;> cases element <;> simp only [scalarExtent] <;> try omega
  all_goals split <;> simp only [] <;> omega

/-- What packing adds to a row of values. -/
theorem foldl_append_bounds {extents : List Extent} (h : ∀ e ∈ extents, e.align ≤ 32)
    (p : Packing) (hp : p.align ≤ 32) :
    (extents.foldl Packing.append p).tail
        ≤ p.tail + (extents.map fun e => e.size + 31).sum ∧
      (extents.foldl Packing.append p).align ≤ 32 := by
  induction extents generalizing p with
  | nil => exact ⟨Nat.le_refl _, hp⟩
  | cons e rest ih =>
    have he := h e mem_cons_self
    have hround := roundUp_le p.tail he
    obtain ⟨htail, halign⟩ := ih (fun e' he' => h e' (mem_cons_of_mem e he')) (p.append e)
      (Nat.max_le.mpr ⟨hp, he⟩)
    refine ⟨?_, halign⟩
    rw [map_cons, sum_cons]
    simp only [Packing.append] at htail ⊢
    simp only [foldl_cons, Packing.append]
    omega

/-- The distance between equal values is bounded as they are. -/
theorem Extent.stride_le {e : Extent} {n : Nat} (h : e.size + 31 ≤ 64 * n ∧ e.align ≤ 32) :
    e.stride ≤ 64 * n :=
  Nat.le_trans (roundUp_le e.size h.2) h.1

theorem Extent.mul_stride_le {e : Extent} {n : Nat} (h : e.size + 31 ≤ 64 * n ∧ e.align ≤ 32)
    (count : Nat) : count * e.stride ≤ 64 * (count * n) := by
  rw [Nat.mul_left_comm]
  exact Nat.mul_le_mul_left count (stride_le h)

namespace ValueType

mutual

/-- A type takes at most 64 bytes for each of its nodes, with the gaps around it. -/
theorem extent_bounds (rules : LayoutRules) (t : ValueType) :
    (t.extent rules).size + 31 ≤ 64 * t.nodeCount ∧ (t.extent rules).align ≤ 32 := by
  cases t with
  | bool => cases rules <;> decide
  | vector element count => exact rules.vectorExtent_bounds element count
  | color => cases rules <;> decide
  | matrix columns rows =>
    have hcolumn := rules.vectorExtent_bounds .float rows
    have hsize := Extent.mul_stride_le hcolumn columns
    refine ⟨?_, hcolumn.2⟩
    simp only [extent, nodeCount]
    omega
  | array element count =>
    have helement := extent_bounds rules element
    have hsize := Extent.mul_stride_le helement count
    refine ⟨?_, helement.2⟩
    simp only [extent, nodeCount]
    omega
  | struct name fields =>
    obtain ⟨haligns, hsum⟩ := fieldExtents_bounds rules fields
    obtain ⟨htail, halign⟩ := foldl_append_bounds haligns .empty (by decide)
    refine ⟨?_, halign⟩
    have hsize := roundUp_le (pack (fieldExtents rules fields)).tail halign
    have hempty : Packing.empty.tail = 0 := rfl
    simp only [extent, nodeCount, Packing.extent, pack] at hsize ⊢
    omega
  | _ => simp [extent, nodeCount]

theorem fieldExtents_bounds (rules : LayoutRules) (fields : List (String × ValueType)) :
    (∀ e ∈ fieldExtents rules fields, e.align ≤ 32) ∧
      ((fieldExtents rules fields).map fun e => e.size + 31).sum ≤ 64 * fieldsNodeCount fields := by
  cases fields with
  | nil => simp [fieldExtents, fieldsNodeCount]
  | cons f rest =>
    have hhead := extent_bounds rules f.2
    obtain ⟨haligns, hsum⟩ := fieldExtents_bounds rules rest
    simp only [fieldExtents, mem_cons, forall_eq_or_imp, map_cons, sum_cons,
      fieldsNodeCount]
    exact ⟨⟨hhead.2, haligns⟩, by omega⟩

end

/-! ## Sizes in words -/

/-- The extent of a type is computed in words as it is without a limit. -/
def FitsInWords (rules : LayoutRules) (t : ValueType) : Prop :=
  t.extentInWords rules = (t.extent? rules).mapError .storage

mutual

/-- The empty arrays and matrices in a type fit in words, though nothing bounds the size of what
they could hold. -/
def EmptyFit (rules : LayoutRules) : ValueType → Prop
  | .matrix 0 rows => FitsInWords rules (.matrix 0 rows)
  | .array element 0 => FitsInWords rules (.array element 0)
  | .array element (_ + 1) => element.EmptyFit rules
  | .struct _ fields => fieldsEmptyFit rules fields
  | _ => True

/-- The empty arrays and matrices in the types of a field list fit in words. -/
def fieldsEmptyFit (rules : LayoutRules) : List (String × ValueType) → Prop
  | [] => True
  | (_, t) :: rest => t.EmptyFit rules ∧ fieldsEmptyFit rules rest

end

end ValueType

theorem inWord_of_lt {n : Nat} (h : n < 2 ^ 32) : inWord n = .ok n :=
  if_pos h

theorem LayoutRules.vectorInWords_of_lt {element : ScalarType} {count : Nat}
    (h : 64 * (1 + count) ≤ 2 ^ 32) :
    rules.vectorInWords element count = .ok (rules.vectorExtent element count) := by
  have hbounds := (rules.vectorExtent_bounds element count).1
  unfold vectorInWords
  dsimp only
  rw [inWord_of_lt (by omega)]
  rfl

theorem Extent.repeatInWords_of_lt {e : Extent} {count : Nat} (hstride : e.stride < 2 ^ 32)
    (h : count * e.stride < 2 ^ 32) : e.repeatInWords count = .ok ⟨count * e.stride, e.align⟩ := by
  unfold repeatInWords
  rw [inWord_of_lt hstride]
  simp only [bind, Except.bind]
  rw [inWord_of_lt h]
  rfl

namespace ValueType

mutual

/-- A type of few nodes fits in words, if its empty arrays do. -/
theorem fitsInWords (t : ValueType) (hempty : t.EmptyFit rules)
    (hsmall : 64 * t.nodeCount ≤ 2 ^ 32) : t.FitsInWords rules := by
  cases t with
  | vector element count => exact LayoutRules.vectorInWords_of_lt hsmall
  | matrix columns rows =>
    cases columns with
    | zero => exact hempty
    | succ columns =>
      have hcolumn := rules.vectorExtent_bounds .float rows
      have hstride := Extent.stride_le hcolumn
      have hsize := Extent.mul_stride_le hcolumn (columns + 1)
      have hone : 1 + rows ≤ (columns + 1) * (1 + rows) := Nat.le_mul_of_pos_left _ (by omega)
      simp only [nodeCount] at hsmall
      unfold FitsInWords
      rw [extentInWords, LayoutRules.vectorInWords_of_lt (by omega)]
      exact Extent.repeatInWords_of_lt (by omega) (by omega)
  | array element count =>
    cases count with
    | zero => exact hempty
    | succ count =>
      have helement := extent_bounds rules element
      have hstride := Extent.stride_le helement
      have hsize := Extent.mul_stride_le helement (count + 1)
      have hone : element.nodeCount ≤ (count + 1) * element.nodeCount :=
        Nat.le_mul_of_pos_left _ (by omega)
      simp only [nodeCount] at hsmall
      have hfits := fitsInWords element hempty (by omega)
      unfold FitsInWords extent? at hfits ⊢
      rw [extentInWords, hfits, distribution?]
      cases element.distribution? with
      | some d => rfl
      | none => exact Extent.repeatInWords_of_lt (by omega) (by omega)
  | struct name fields =>
    obtain ⟨haligns, hsum⟩ := fieldExtents_bounds rules fields
    obtain ⟨htail, halign⟩ := foldl_append_bounds haligns .empty (by decide)
    have hround := roundUp_le (pack (fieldExtents rules fields)).tail halign
    have hstart : Packing.empty.tail = 0 := rfl
    simp only [nodeCount] at hsmall
    have hpack := appendInWords_eq fields hempty (p := .empty) (by omega)
    unfold FitsInWords extent?
    rw [extentInWords, hpack, distribution?]
    cases distributionField? fields with
    | some d => rfl
    | none =>
      simp only [bind, Except.bind]
      rw [inWord_of_lt (by simp only [Packing.extent]; unfold pack at hround; omega)]
      rfl
  | _ => rfl

theorem appendInWords_eq (fields : List (String × ValueType))
    (hempty : fieldsEmptyFit rules fields) {p : Packing}
    (hsmall : p.tail + 64 * fieldsNodeCount fields < 2 ^ 32) :
    Packing.appendInWords rules p fields = match distributionField? fields with
      | some d => .error (.storage ⟨d⟩)
      | none => .ok ((fieldExtents rules fields).foldl Packing.append p) := by
  cases fields with
  | nil => rfl
  | cons f rest =>
    have hbounds := extent_bounds rules f.2
    have hround := roundUp_le p.tail hbounds.2
    simp only [fieldsNodeCount] at hsmall
    have hhead := fitsInWords f.2 hempty.1 (by omega)
    have hrest := appendInWords_eq rest hempty.2 (p := p.append (f.2.extent rules))
      (by simp only [Packing.append]; omega)
    unfold FitsInWords extent? at hhead
    rw [Packing.appendInWords, hhead, distributionField?]
    cases f.2.distribution? with
    | some d => rfl
    | none =>
      simp only [Except.mapError, bind, Except.bind]
      rw [inWord_of_lt (by omega)]
      dsimp only
      rw [inWord_of_lt (by omega)]
      exact hrest

end

end ValueType

/-! ## Offsets in words -/

theorem Shape.partsInWords_iff {parts : List (Nat × Shape)} {base : Nat} :
    partsInWords parts base = true ↔
      ∀ part ∈ parts, base + part.1 < 2 ^ 32 ∧ part.2.inWords (base + part.1) = true := by
  induction parts with
  | nil => simp [partsInWords]
  | cons part rest ih => simp [partsInWords, ih, and_assoc]

/-- Equal parts side by side, each in a room of its own. -/
theorem Shape.partsInWords_strided {s : Shape} {base count stride : Nat} (room : Nat)
    (hs : ∀ offset, offset + room ≤ 2 ^ 32 → s.inWords offset = true) (hroom : 0 < room)
    (hstride : stride ≤ room) (h : base + count * room ≤ 2 ^ 32) :
    partsInWords (((List.range count).map fun i => i * stride).map fun o => (o, s)) base =
      true := by
  rw [partsInWords_iff]
  simp only [map_map, mem_map, mem_range, Function.comp_apply]
  rintro part ⟨i, hi, rfl⟩
  have hoffset : i * stride ≤ i * room := Nat.mul_le_mul_left i hstride
  have hend : (i + 1) * room ≤ count * room := Nat.mul_le_mul_right room hi
  rw [Nat.succ_mul] at hend
  exact ⟨by omega, hs _ (by omega)⟩

/-- The offsets of values that are appended behind a row. -/
def offsetsFrom : (tail : Nat) → List Extent → List Nat
  | _, [] => []
  | tail, e :: rest =>
    let offset := roundUp tail e.align
    offset :: offsetsFrom (offset + e.size) rest

theorem offsets_foldl_append (extents : List Extent) (p : Packing) :
    (extents.foldl Packing.append p).offsets = p.offsets ++ offsetsFrom p.tail extents := by
  induction extents generalizing p with
  | nil => simp [offsetsFrom]
  | cons e rest ih => simp [foldl_cons, ih, Packing.append, offsetsFrom]

namespace ValueType

theorem vectorShape_inWords {element : ScalarType} {count base : Nat}
    (h : base + 64 * (1 + count) ≤ 2 ^ 32) :
    (vectorShape rules element count).inWords base = true := by
  have hsize : (rules.scalarExtent element).size ≤ 64 := by
    cases rules <;> cases element <;> decide
  refine Shape.partsInWords_strided 64 (fun _ _ => rfl) (by decide) hsize ?_
  omega

mutual

/-- The offsets in a type of few nodes fit in words. -/
theorem shape_inWords (t : ValueType) (base : Nat) (h : base + 64 * t.nodeCount ≤ 2 ^ 32) :
    (t.shape rules).inWords base = true := by
  cases t with
  | vector element count => exact vectorShape_inWords h
  | color =>
    have hparts : ∀ part ∈ (childOffsets rules .color).map fun o => (o, Shape.node .float 4 []),
        base + part.1 < 2 ^ 32 ∧ part.2.inWords (base + part.1) = true := by
      simp only [nodeCount] at h
      simp [childOffsets, Shape.inWords, Shape.partsInWords]
      omega
    exact Shape.partsInWords_iff.mpr hparts
  | matrix columns rows =>
    have hstride := Extent.stride_le (rules.vectorExtent_bounds .float rows)
    simp only [nodeCount] at h
    refine Shape.partsInWords_strided (64 * (1 + rows)) (fun _ => vectorShape_inWords)
      (by omega) hstride ?_
    rw [Nat.mul_left_comm]
    omega
  | array element count =>
    have helement := extent_bounds rules element
    have hstride := Extent.stride_le helement
    simp only [nodeCount] at h
    refine Shape.partsInWords_strided (64 * element.nodeCount) (shape_inWords element)
      (by omega) hstride ?_
    rw [Nat.mul_left_comm]
    omega
  | struct name fields =>
    simp only [nodeCount] at h
    have hparts := fieldShapes_inWords fields base 0 (by omega)
    rw [shape, childOffsets, pack, offsets_foldl_append]
    exact hparts
  | _ => rfl

theorem fieldShapes_inWords (fields : List (String × ValueType)) (base tail : Nat)
    (h : base + tail + 31 + 64 * fieldsNodeCount fields < 2 ^ 32) :
    Shape.partsInWords ((offsetsFrom tail (fieldExtents rules fields)).zip
      (fieldShapes rules fields)) base = true := by
  cases fields with
  | nil => rfl
  | cons f rest =>
    have hbounds := extent_bounds rules f.2
    have hround := roundUp_le tail hbounds.2
    simp only [fieldsNodeCount] at h
    have hhead := shape_inWords f.2 (base + roundUp tail (f.2.extent rules).align) (by omega)
    have hrest := fieldShapes_inWords rest base
      (roundUp tail (f.2.extent rules).align + (f.2.extent rules).size) (by omega)
    simp only [fieldExtents, offsetsFrom, fieldShapes, zip_cons_cons, Shape.partsInWords,
      hhead, hrest, Bool.and_true, decide_eq_true_eq, Nat.pow_eq]
    omega

end

end ValueType

/-! ## Layouts of parameters -/

/-- A block has the nodes of the values in it, and one of its own. -/
theorem nodeCount_blockType {parameters : List Parameter}
    (h : ∀ p ∈ parameters, p.value.conformsTo p.type = true) :
    (blockType parameters).nodeCount =
      1 + (parameters.map fun p => p.value.flatten.length).sum := by
  rw [blockType, ValueType.nodeCount]
  congr 1
  induction parameters with
  | nil => rfl
  | cons p rest ih =>
    rw [forall_mem_cons] at h
    simp [ValueType.fieldsNodeCount, ih h.2, Value.length_flatten p.value p.type h.1]

theorem emptyFit_blockType {parameters : List Parameter}
    (h : ∀ p ∈ parameters, p.type.EmptyFit rules) : (blockType parameters).EmptyFit rules := by
  rw [blockType, ValueType.EmptyFit]
  induction parameters with
  | nil => trivial
  | cons p rest ih =>
    rw [forall_mem_cons] at h
    exact ⟨h.1, ih h.2⟩

theorem distribution?_blockType (parameters : List Parameter) :
    (blockType parameters).distribution? = parameters.findSome? fun p => p.type.distribution? := by
  rw [blockType, ValueType.distribution?]
  induction parameters with
  | nil => rfl
  | cons p rest ih =>
    rw [map_cons, ValueType.distributionField?, findSome?_cons]
    split <;> simp_all

/-- The layout of the parameters of a consistent material fits in words: it is the layout
without a limit, or its failure.  The values are fewer than a word has bytes for, 64 to each, and
the empty arrays fit. -/
theorem layout_fits_in_words {m : Material} (hm : m.check = .ok ()) (rules : LayoutRules)
    (hsmall : (m.parameters.map fun p => p.value.flatten.length).sum < 2 ^ 26)
    (hempty : ∀ p ∈ m.parameters, p.type.EmptyFit rules) :
    Layout.buildInWords m.parameters rules =
      (Layout.build m.parameters rules).mapError .storage := by
  have hcount := nodeCount_blockType (Material.conformsTo_of_check hm)
  have hextent := ValueType.fitsInWords _ (emptyFit_blockType hempty) (by omega)
  have hoffsets : ((blockType m.parameters).shape rules).inWords 0 = true :=
    ValueType.shape_inWords _ 0 (by omega)
  unfold ValueType.FitsInWords ValueType.extent? at hextent
  rw [distribution?_blockType] at hextent
  unfold Layout.buildInWords
  rw [hextent, hoffsets, Layout.build]
  cases m.parameters.findSome? fun p => p.type.distribution? <;> rfl

/-- A material with two weights and a list of layers. -/
def coated (layers : List Value) (layer : ValueType) : Material where
  name := "coated"
  graph := .empty
  parameters := [⟨"weights", .array .float 2, .array [.float 0, .float 1]⟩,
    ⟨"layers", .array layer layers.length, .array layers⟩]
  fields := .empty

/-- A list without layers fits, if a layer does. -/
theorem layout_fits_in_words_coated :
    (coated [] .color).check = .ok () ∧
      Layout.buildInWords (coated [] .color).parameters .gpuStorage =
        (Layout.build (coated [] .color).parameters .gpuStorage).mapError .storage := by
  have hcheck : (coated [] .color).check = .ok () := by rfl
  refine ⟨hcheck, layout_fits_in_words hcheck .gpuStorage (by decide) ?_⟩
  simp only [coated, forall_mem_cons]
  exact ⟨trivial, rfl, by simp⟩

/-- A list without layers overflows, if a layer of it would take all that a word can count. -/
theorem empty_array_overflows :
    (coated [] (.array .float (2 ^ 30))).check = .ok () ∧
      (∃ l, Layout.build (coated [] (.array .float (2 ^ 30))).parameters .scalar = .ok l) ∧
      Layout.buildInWords (coated [] (.array .float (2 ^ 30))).parameters .scalar =
        .error .overflow := by
  exact ⟨rfl, ⟨_, rfl⟩, rfl⟩

end Shading
