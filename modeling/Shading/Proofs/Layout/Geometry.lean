import Mathlib.Data.List.Induction
import Shading.Layout.Block

/-!
# Geometry of shapes

The parts of a shape lie inside it, one after the other, and do not touch.  This holds
under the scalar rules of every type, and under the storage rules of the types whose
vectors are not longer than four.

Main definitions:

- `ValueType.narrow` says that no vector in a type is longer than four.
- `Apart` says that parts lie one after the other inside a room.
- `Shape.Fits` says so of a shape and of everything in it.

Main results:

- Theorem `pack_orderly`: packing gives out ranges that follow each other.
- Theorem `ValueType.shape_fits`: the shape of a type fits.
-/

namespace Shading

open List

/-! ## Rounding and alignment -/

theorem le_roundUp (n : Nat) {align : Nat} (halign : 0 < align) : n ≤ roundUp n align := by
  have hdiv := Nat.div_add_mod (n + align - 1) align
  have hmod := Nat.mod_lt (n + align - 1) halign
  rw [roundUp, Nat.mul_comm]
  omega

theorem Extent.size_le_stride {e : Extent} (halign : 0 < e.align) : e.size ≤ e.stride :=
  le_roundUp e.size halign

namespace LayoutRules

theorem scalarExtent_align_pos (rules : LayoutRules) (element : ScalarType) :
    0 < (rules.scalarExtent element).align := by
  cases rules <;> cases element <;> decide

theorem scalarExtent_size_pos (rules : LayoutRules) (element : ScalarType) :
    0 < (rules.scalarExtent element).size := by
  cases rules <;> cases element <;> decide

theorem vectorExtent_align_pos (rules : LayoutRules) (element : ScalarType) (count : Nat) :
    0 < (rules.vectorExtent element count).align := by
  have halign := rules.scalarExtent_align_pos element
  have hsize := rules.scalarExtent_size_pos element
  unfold vectorExtent
  cases rules with
  | scalar => exact halign
  | gpuStorage =>
    dsimp only
    split
    · exact halign
    · exact halign
    · exact Nat.mul_pos Nat.two_pos hsize
    · exact Nat.mul_pos (by decide) hsize
    · exact Nat.mul_pos (by decide) hsize

/-- A vector has room for its components side by side; in storage buffers for the first
four. -/
theorem mul_size_le_vectorExtent {rules : LayoutRules} {n count : Nat} (hn : n ≤ count)
    (hfour : rules = .gpuStorage → n ≤ 4) (element : ScalarType) :
    n * (rules.scalarExtent element).size ≤ (rules.vectorExtent element count).size := by
  unfold vectorExtent
  cases rules with
  | scalar =>
    dsimp only
    rw [Nat.mul_comm _ count]
    exact Nat.mul_le_mul_right _ hn
  | gpuStorage =>
    dsimp only
    split
    · rw [Nat.le_zero.mp hn]
      omega
    · exact Nat.le_trans (Nat.mul_le_mul_right _ hn) (Nat.le_of_eq (Nat.one_mul _))
    · exact Nat.mul_le_mul_right _ hn
    · exact Nat.mul_le_mul_right _ hn
    · exact Nat.mul_le_mul_right _ (hfour rfl)

end LayoutRules

variable {extents : List Extent} {p : Packing}

/-! ## Packing -/

/-- Ranges that a packing gave out: they follow each other and end before the tail. -/
structure Packing.Orderly (p : Packing) (extents : List Extent) : Prop where
  length_eq : p.offsets.length = extents.length
  align_pos : 0 < p.align
  end_le : ∀ {k o : Nat} {e : Extent}, p.offsets[k]? = some o → extents[k]? = some e →
    o + e.size ≤ p.tail
  ordered : ∀ {j k o o' : Nat} {e : Extent}, j < k → p.offsets[j]? = some o →
    extents[j]? = some e → p.offsets[k]? = some o' → o + e.size ≤ o'

theorem Packing.empty_orderly : Packing.empty.Orderly [] where
  length_eq := rfl
  align_pos := Nat.one_pos
  end_le := by
    intro k o e hk
    simp [Packing.empty] at hk
  ordered := by
    intro j k o o' e _ hj
    simp [Packing.empty] at hj

/-- A range of a longer packing is one of the old ones, or the one that was appended. -/
theorem Packing.range_append
    (hlength : p.offsets.length = extents.length) {e e' : Extent} {k o : Nat}
    (hk : (p.append e).offsets[k]? = some o) (he : (extents ++ [e])[k]? = some e') :
    (k < p.offsets.length ∧ p.offsets[k]? = some o ∧ extents[k]? = some e') ∨
      (k = p.offsets.length ∧ o = roundUp p.tail e.align ∧ e' = e) := by
  simp only [Packing.append, getElem?_append, hlength] at hk he ⊢
  split at hk
  · rename_i hlt
    rw [if_pos hlt] at he
    exact Or.inl ⟨hlt, hk, he⟩
  · rename_i hlt
    rw [if_neg hlt] at he
    simp only [getElem?_singleton] at hk he
    split at hk
    · rename_i hzero
      rw [if_pos hzero] at he
      exact Or.inr ⟨by omega, (Option.some.inj hk).symm, (Option.some.inj he).symm⟩
    · simp at hk

theorem Packing.Orderly.append (h : p.Orderly extents)
    {e : Extent} (halign : 0 < e.align) : (p.append e).Orderly (extents ++ [e]) := by
  have hoffset := le_roundUp p.tail halign
  have hend : ∀ {k o : Nat}, (p.append e).offsets[k]? = some o → ∃ e',
      (extents ++ [e])[k]? = some e' := by
    intro k o hk
    have hlt := (List.getElem?_eq_some_iff.mp hk).1
    have hlength : (p.append e).offsets.length = (extents ++ [e]).length := by
      simp [Packing.append, h.length_eq]
    exact ⟨_, getElem?_eq_getElem (hlength ▸ hlt)⟩
  refine ⟨by simp [Packing.append, h.length_eq], ?_, ?_, ?_⟩
  · exact Nat.lt_of_lt_of_le h.align_pos (Nat.le_max_left _ _)
  · intro k o e' hk he
    change o + e'.size ≤ roundUp p.tail e.align + e.size
    rcases Packing.range_append h.length_eq hk he with ⟨_, hk', he'⟩ | ⟨_, rfl, rfl⟩
    · have := h.end_le hk' he'
      omega
    · exact Nat.le_refl _
  · intro j k o o' e' hjk hj he hk
    obtain ⟨e'', he''⟩ := hend hk
    rcases Packing.range_append h.length_eq hj he with ⟨_, hj', he'⟩ | ⟨hj', _, _⟩
    · rcases Packing.range_append h.length_eq hk he'' with ⟨_, hk', _⟩ | ⟨_, rfl, _⟩
      · exact h.ordered hjk hj' he' hk'
      · exact Nat.le_trans (h.end_le hj' he') hoffset
    · rcases Packing.range_append h.length_eq hk he'' with ⟨hk', _, _⟩ | ⟨hk', _, _⟩ <;> omega

/-- Packing gives out ranges that follow each other. -/
theorem pack_orderly (extents : List Extent) (halign : ∀ e ∈ extents, 0 < e.align) :
    (pack extents).Orderly extents := by
  induction extents using List.reverseRecOn with
  | nil => exact Packing.empty_orderly
  | append_singleton extents e ih =>
    have hpack : pack (extents ++ [e]) = (pack extents).append e := by
      simp [pack]
    rw [hpack]
    exact (ih fun e' he' => halign e' (mem_append_left _ he')).append
      (halign e (by simp))

/-! ## Shapes -/

/-- The size of a shape. -/
def Shape.size : Shape → Nat
  | .node _ size _ => size

@[simp] theorem Shape.size_node (kind : ValueKind) (size : Nat) (children : List (Nat × Shape)) :
    (Shape.node kind size children).size = size :=
  rfl

/-- Parts that lie one after the other inside a room. -/
structure Apart (room : Nat) (parts : List (Nat × Shape)) : Prop where
  inside : ∀ {k o : Nat} {s : Shape}, parts[k]? = some (o, s) → o + s.size ≤ room
  ordered : ∀ {j k o o' : Nat} {s s' : Shape}, j < k → parts[j]? = some (o, s) →
    parts[k]? = some (o', s') → o + s.size ≤ o'

theorem Apart.tail {room : Nat} {part : Nat × Shape} {parts : List (Nat × Shape)}
    (h : Apart room (part :: parts)) : Apart room parts where
  inside := fun hk => h.inside (getElem?_cons_succ.trans hk)
  ordered := fun hjk hj hk => h.ordered (Nat.succ_lt_succ hjk)
    (getElem?_cons_succ.trans hj) (getElem?_cons_succ.trans hk)

/-- Copies of one shape at equal distances. -/
theorem apart_strided {room stride count : Nat} {s : Shape} (hstride : s.size ≤ stride)
    (hroom : count * stride ≤ room) :
    Apart room ((List.range count).map fun i => (i * stride, s)) := by
  have hpart : ∀ {k o : Nat} {s' : Shape},
      ((List.range count).map fun i => (i * stride, s))[k]? = some (o, s') →
        k < count ∧ o = k * stride ∧ s' = s := by
    intro k o s' hk
    obtain ⟨i, hi, heq⟩ := Option.map_eq_some_iff.mp (List.getElem?_map.symm.trans hk)
    obtain ⟨hlt, rfl⟩ := List.getElem?_eq_some_iff.mp hi
    rw [length_range] at hlt
    rw [getElem_range] at heq
    exact ⟨hlt, (congrArg Prod.fst heq).symm, (congrArg Prod.snd heq).symm⟩
  refine ⟨?_, ?_⟩
  · intro k o s' hk
    obtain ⟨hlt, ho, hs⟩ := hpart hk
    rw [ho, hs]
    calc
      k * stride + s.size ≤ k * stride + stride := Nat.add_le_add_left hstride _
      _ = (k + 1) * stride := (Nat.succ_mul k stride).symm
      _ ≤ count * stride := Nat.mul_le_mul_right _ hlt
      _ ≤ room := hroom
  · intro j k o o' s₁ s₂ hjk hj hk
    obtain ⟨_, ho, hs⟩ := hpart hj
    obtain ⟨_, ho', _⟩ := hpart hk
    rw [ho, hs, ho']
    calc
      j * stride + s.size ≤ j * stride + stride := Nat.add_le_add_left hstride _
      _ = (j + 1) * stride := (Nat.succ_mul j stride).symm
      _ ≤ k * stride := Nat.mul_le_mul_right _ hjk

/-- Shapes at the offsets that packing gave out for extents of their sizes. -/
theorem Packing.Orderly.apart (h : p.Orderly extents)
    {shapes : List Shape} (hsizes : shapes.map Shape.size = extents.map Extent.size) :
    Apart p.extent.size (p.offsets.zip shapes) := by
  have hpart : ∀ {k o : Nat} {s : Shape}, (p.offsets.zip shapes)[k]? = some (o, s) →
      p.offsets[k]? = some o ∧ ∃ e, extents[k]? = some e ∧ s.size = e.size := by
    intro k o s hk
    obtain ⟨ho, hs⟩ := getElem?_zip_eq_some.mp hk
    have hsize : (extents.map Extent.size)[k]? = some s.size := by
      rw [← hsizes, getElem?_map, hs]
      rfl
    obtain ⟨e, he, heq⟩ := Option.map_eq_some_iff.mp (getElem?_map.symm.trans hsize)
    exact ⟨ho, e, he, heq.symm⟩
  refine ⟨?_, ?_⟩
  · intro k o s hk
    obtain ⟨ho, e, he, hsize⟩ := hpart hk
    rw [hsize]
    exact Nat.le_trans (h.end_le ho he) (le_roundUp _ h.align_pos)
  · intro j k o o' s s' hjk hj hk
    obtain ⟨ho, e, he, hsize⟩ := hpart hj
    obtain ⟨ho', _⟩ := hpart hk
    rw [hsize]
    exact h.ordered hjk ho he ho'

/-- The parts of the shape lie one after the other inside it, and the same holds of every
part. -/
inductive Shape.Fits : Shape → Prop
  | node {kind : ValueKind} {size : Nat} {children : List (Nat × Shape)}
      (apart : Apart size children)
      (parts : ∀ {k o : Nat} {s : Shape}, children[k]? = some (o, s) → s.Fits) :
      Shape.Fits (.node kind size children)

theorem Shape.fits_leaf (kind : ValueKind) (size : Nat) : (Shape.node kind size []).Fits :=
  .node ⟨fun hk => absurd hk (by simp), fun _ hj => absurd hj (by simp)⟩
    (fun hk => absurd hk (by simp))

/-- Copies of one shape that fits, at equal distances. -/
theorem Shape.fits_strided {kind : ValueKind} {size stride count : Nat} {s : Shape}
    (hstride : s.size ≤ stride) (hroom : count * stride ≤ size) (hs : s.Fits) :
    (Shape.node kind size ((List.range count).map fun i => (i * stride, s))).Fits := by
  refine .node (apart_strided hstride hroom) fun {k o s'} hk => ?_
  obtain ⟨i, _, heq⟩ := Option.map_eq_some_iff.mp (getElem?_map.symm.trans hk)
  have hs' : s = s' := congrArg Prod.snd heq
  exact hs' ▸ hs

/-! ## Shapes of types -/

namespace ValueType

mutual

/-- Whether no vector and no column of a matrix in a type is longer than four. -/
def narrow : ValueType → Bool
  | .vector _ count => count ≤ 4
  | .matrix _ rows => rows ≤ 4
  | .array element _ => element.narrow
  | .struct _ fields => fieldsNarrow fields
  | _ => true

/-- Whether no vector in a field list is longer than four. -/
def fieldsNarrow : List (String × ValueType) → Bool
  | [] => true
  | (_, t) :: rest => t.narrow && fieldsNarrow rest

end

@[simp] theorem shape_size (rules : LayoutRules) (t : ValueType) :
    (t.shape rules).size = t.size rules := by
  cases t <;> rfl

theorem fieldShapes_eq_map (rules : LayoutRules) (fields : List (String × ValueType)) :
    fieldShapes rules fields = fields.map fun f => f.2.shape rules := by
  induction fields with
  | nil => rfl
  | cons f rest ih => rw [fieldShapes, ih, map_cons]

theorem fieldExtents_eq_map (rules : LayoutRules) (fields : List (String × ValueType)) :
    fieldExtents rules fields = fields.map fun f => f.2.extent rules := by
  induction fields with
  | nil => rfl
  | cons f rest ih => rw [fieldExtents, ih, map_cons]

mutual

theorem extent_align_pos (rules : LayoutRules) (t : ValueType) : 0 < (t.extent rules).align := by
  cases t with
  | bool => exact rules.scalarExtent_align_pos .bool
  | vector element count => exact rules.vectorExtent_align_pos element count
  | color => exact rules.vectorExtent_align_pos .float 3
  | matrix columns rows => exact rules.vectorExtent_align_pos .float rows
  | array element count => exact extent_align_pos rules element
  | struct name fields => exact (pack_orderly _ (fieldExtents_align_pos rules fields)).align_pos
  | _ => simp [extent]

theorem fieldExtents_align_pos (rules : LayoutRules) (fields : List (String × ValueType)) :
    ∀ e ∈ fieldExtents rules fields, 0 < e.align := by
  cases fields with
  | nil =>
    intro e he
    cases he
  | cons f rest =>
    obtain ⟨name, t⟩ := f
    intro e he
    rcases mem_cons.mp he with rfl | he
    · exact extent_align_pos rules t
    · exact fieldExtents_align_pos rules rest e he

end

theorem pack_types_orderly (rules : LayoutRules) (types : List ValueType) :
    (pack (types.map (extent rules))).Orderly (types.map (extent rules)) := by
  refine pack_orderly _ fun e he => ?_
  obtain ⟨t, _, rfl⟩ := mem_map.mp he
  exact extent_align_pos rules t

/-- The shape of a structure with parts of the given types. -/
def structShape (rules : LayoutRules) (types : List ValueType) : Shape :=
  let packing := pack (types.map (extent rules))
  .node .struct packing.extent.size (packing.offsets.zip (types.map (shape rules)))

theorem length_structParts (rules : LayoutRules) (types : List ValueType) :
    ((pack (types.map (extent rules))).offsets.zip (types.map (shape rules))).length =
      types.length := by
  rw [length_zip, (pack_types_orderly rules types).length_eq, length_map,
    length_map, Nat.min_self]

theorem shape_struct (rules : LayoutRules) (name : String) (fields : List (String × ValueType)) :
    (ValueType.struct name fields).shape rules = structShape rules (fields.map Prod.snd) := by
  rw [shape, structShape, size, extent, childOffsets, fieldShapes_eq_map, fieldExtents_eq_map,
    map_map, map_map]
  rfl

theorem structShape_fits {rules : LayoutRules} {types : List ValueType}
    (htypes : ∀ t ∈ types, (t.shape rules).Fits) : (structShape rules types).Fits := by
  refine .node ((pack_types_orderly rules types).apart ?_) fun hk => ?_
  · simp [Function.comp_def, size]
  · have hshape := mem_of_getElem? (getElem?_zip_eq_some.mp hk).2
    obtain ⟨t, ht, rfl⟩ := mem_map.mp hshape
    exact htypes t ht

theorem vectorShape_fits {rules : LayoutRules} {count : Nat}
    (hcount : rules = .gpuStorage → count ≤ 4) (element : ScalarType) :
    (vectorShape rules element count).Fits := by
  unfold vectorShape childOffsets
  rw [map_map]
  exact Shape.fits_strided (Nat.le_refl _)
    (LayoutRules.mul_size_le_vectorExtent (Nat.le_refl _) hcount element)
    (Shape.fits_leaf _ _)

mutual

/-- The shape of a type fits, in storage buffers if the type is narrow. -/
theorem shape_fits {rules : LayoutRules} (t : ValueType)
    (ht : rules = .gpuStorage → t.narrow = true) : (t.shape rules).Fits := by
  cases t with
  | vector element count =>
    exact vectorShape_fits (fun hrules => of_decide_eq_true (ht hrules)) element
  | color =>
    have hroom : 3 * 4 ≤ size rules .color :=
      LayoutRules.mul_size_le_vectorExtent (Nat.le_refl 3) (fun _ => by decide) .float
    exact Shape.fits_strided (Nat.le_refl 4) hroom (Shape.fits_leaf .float 4)
  | matrix columns rows =>
    rw [shape, childOffsets, map_map]
    exact Shape.fits_strided (Extent.size_le_stride (rules.vectorExtent_align_pos _ _))
      (Nat.le_refl _) (vectorShape_fits (fun hrules => of_decide_eq_true (ht hrules)) .float)
  | array element count =>
    rw [shape, childOffsets, map_map]
    refine Shape.fits_strided ?_ (Nat.le_refl _) (shape_fits element ht)
    rw [shape_size]
    exact Extent.size_le_stride (extent_align_pos rules element)
  | struct name fields =>
    rw [shape_struct]
    exact structShape_fits (fieldShapes_fit fields ht)
  | _ => exact Shape.fits_leaf _ _

theorem fieldShapes_fit {rules : LayoutRules} (fields : List (String × ValueType))
    (hfields : rules = .gpuStorage → fieldsNarrow fields = true) :
    ∀ t ∈ fields.map Prod.snd, (t.shape rules).Fits := by
  cases fields with
  | nil =>
    intro t ht
    cases ht
  | cons f rest =>
    obtain ⟨name, type⟩ := f
    simp only [fieldsNarrow, Bool.and_eq_true] at hfields
    intro t ht
    rcases mem_cons.mp ht with heq | ht
    · rw [heq]
      exact shape_fits type fun hrules => (hfields hrules).1
    · exact fieldShapes_fit rest (fun hrules => (hfields hrules).2) t ht

end

end ValueType

end Shading
