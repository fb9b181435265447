import Shading.Proofs.Layout.Address

/-!
# Parts of types in a layout

A path of part numbers leads through a type, and through the nodes of a layout.  Where the
nodes represent the shape of the type, both paths go the same way: one ends exactly when the
other does, at a node of the type that the path leads to.

Main definitions:

- `ValueType.part?` is the type of a part of a part, `ValueType.partOffset?` its offset.

Main results:

- Theorem `ValueType.shapeParts_of_childType`: the shape of a type has the shapes of its parts.
- Theorems `Represents.walk` and `Represents.part?_of_address?`: addresses follow types.
-/

namespace Shading

open List

variable {t : ValueType} {index : Nat} {rules : LayoutRules}

namespace ValueType

/-! ## Parts of types -/

/-- The type at the end of a path of part numbers. -/
def part? (t : ValueType) : (path : List Nat) → Option ValueType
  | [] => some t
  | index :: path =>
    match t.childType index with
    | some u => u.part? path
    | none => none

/-- The offset of a part of a part from the start of the type. -/
def partOffset? (rules : LayoutRules) (t : ValueType) : (path : List Nat) → Option Nat
  | [] => some 0
  | index :: path =>
    match t.childType index, (t.childOffsets rules)[index]? with
    | some u, some offset => (u.partOffset? rules path).map (offset + ·)
    | _, _ => none

theorem exists_childType (h : index < t.childCount) : ∃ u, t.childType index = some u := by
  cases t with
  | struct name fields => exact ⟨_, congrArg (Option.map Prod.snd) (getElem?_eq_getElem h)⟩
  | vector | matrix | color | array => exact ⟨_, if_pos h⟩
  | _ => exact absurd h (Nat.not_lt_zero _)

/-! ## Parts of shapes -/

/-- The parts of the shape of a type. -/
def shapeParts (rules : LayoutRules) (t : ValueType) : List (Nat × Shape) :=
  match t.shape rules with
  | .node _ _ children => children

theorem shape_eq_node (rules : LayoutRules) (t : ValueType) :
    t.shape rules = .node t.kind (t.size rules) (t.shapeParts rules) := by
  cases t <;> rfl

theorem length_childOffsets (rules : LayoutRules) (t : ValueType) :
    (t.childOffsets rules).length = t.childCount := by
  cases t with
  | struct name fields =>
    rw [childOffsets, (pack_orderly _ (fieldExtents_align_pos rules fields)).length_eq,
      fieldExtents_eq_map, length_map]
    rfl
  | _ => simp [childOffsets, childCount]

theorem length_shapeParts (rules : LayoutRules) (t : ValueType) :
    (t.shapeParts rules).length = t.childCount := by
  cases t with
  | struct name fields =>
    unfold shapeParts
    rw [shape_struct, structShape]
    exact (length_structParts rules _).trans (length_map _)
  | vector element size => simp [shapeParts, shape, vectorShape, childOffsets, childCount]
  | _ => simp [shapeParts, shape, childOffsets, childCount]

theorem shape_ofScalar (rules : LayoutRules) (element : ScalarType) :
    (ofScalar element).shape rules
      = .node (ofScalar element).kind (rules.scalarExtent element).size [] := by
  cases rules <;> cases element <;> rfl

/-- A part of a type has its shape at its offset. -/
theorem shapeParts_of_childType {u : ValueType} (rules : LayoutRules)
    (h : t.childType index = some u) :
    ∃ offset, (t.childOffsets rules)[index]? = some offset ∧
      (t.shapeParts rules)[index]? = some (offset, u.shape rules) := by
  cases t with
  | vector element size =>
    obtain ⟨hlt, rfl⟩ : index < size ∧ ofScalar element = u := by
      simpa [childType] using h
    refine ⟨index * (rules.scalarExtent element).size, ?_, ?_⟩
    · simp [childOffsets, hlt]
    · rw [shape_ofScalar]
      simp [shapeParts, shape, vectorShape, childOffsets, hlt]
  | matrix columns rows =>
    obtain ⟨hlt, rfl⟩ : index < columns ∧ .vector .float rows = u := by
      simpa [childType] using h
    refine ⟨index * (rules.vectorExtent .float rows).stride, ?_, ?_⟩
    · simp [childOffsets, hlt]
    · simp [shapeParts, shape, childOffsets, hlt]
  | color =>
    obtain ⟨hlt, rfl⟩ : index < 3 ∧ .float = u := by
      simpa [childType] using h
    match index, hlt with
    | 0, _ => exact ⟨0, rfl, rfl⟩
    | 1, _ => exact ⟨4, rfl, rfl⟩
    | 2, _ => exact ⟨8, rfl, rfl⟩
  | array element size =>
    obtain ⟨hlt, rfl⟩ : index < size ∧ element = u := by
      simpa [childType] using h
    refine ⟨index * (element.extent rules).stride, ?_, ?_⟩
    · simp [childOffsets, hlt]
    · simp [shapeParts, shape, childOffsets, hlt]
  | struct name fields =>
    obtain ⟨f, hf, rfl⟩ := Option.map_eq_some_iff.mp h
    have hlt : index < (childOffsets rules (.struct name fields)).length := by
      rw [length_childOffsets]
      exact (List.getElem?_eq_some_iff.mp hf).1
    refine ⟨_, getElem?_eq_getElem hlt, ?_⟩
    refine getElem?_zip_eq_some.mpr ⟨getElem?_eq_getElem hlt, ?_⟩
    rw [fieldShapes_eq_map, getElem?_map, hf]
    rfl
  | _ => cases h

/-- A part of the shape of a type is the shape of a part of the type. -/
theorem childType_of_shapeParts {offset : Nat} {s : Shape}
    (h : (t.shapeParts rules)[index]? = some (offset, s)) :
    ∃ u, t.childType index = some u ∧ s = u.shape rules := by
  have hlt : index < t.childCount := by
    rw [← length_shapeParts rules t]
    exact (List.getElem?_eq_some_iff.mp h).1
  obtain ⟨u, hu⟩ := exists_childType hlt
  obtain ⟨o, -, hpart⟩ := shapeParts_of_childType rules hu
  rw [h] at hpart
  cases hpart
  exact ⟨u, hu, rfl⟩

end ValueType

/-! ## Parts of layouts -/

section

variable {l : Layout} {used : Nat → Prop} {t u : ValueType} {address offset k : Nat}

theorem Represents.elementCount {kind : ValueKind} {size : Nat} {children : List (Nat × Shape)}
    (h : Represents l.nodes used (.node kind size children) address offset) :
    l.elementCount address = children.length := by
  cases h with
  | node here _ _ => rw [Layout.elementCount, here]

/-- A part of a type is at an address of its own. -/
theorem Represents.part (h : Represents l.nodes used (t.shape rules) address offset)
    (hu : t.childType k = some u) :
    ∃ o next, (t.childOffsets rules)[k]? = some o ∧ l.child? k address = some next ∧
      Represents l.nodes used (u.shape rules) next (offset + o) := by
  obtain ⟨o, ho, hpart⟩ := ValueType.shapeParts_of_childType rules hu
  rw [ValueType.shape_eq_node] at h
  obtain ⟨next, hnext, hrepresents⟩ := h.child? hpart
  exact ⟨o, next, ho, hnext, hrepresents⟩

/-- A path through a type leads to an address, where its last part is represented. -/
theorem Represents.walk {path : List Nat}
    (h : Represents l.nodes used (t.shape rules) address offset) (hpart : t.part? path = some u) :
    ∃ o last, t.partOffset? rules path = some o ∧ l.address? path address = some last ∧
      Represents l.nodes used (u.shape rules) last (offset + o) := by
  induction path generalizing t address offset with
  | nil =>
    cases hpart
    exact ⟨0, address, rfl, rfl, h⟩
  | cons index path ih =>
    rw [ValueType.part?] at hpart
    split at hpart
    · rename_i v hv
      obtain ⟨first, next, hfirst, hnext, hnode⟩ := h.part hv
      obtain ⟨o, last, ho, hlast, hend⟩ := ih hnode hpart
      refine ⟨first + o, last, ?_, ?_, ?_⟩
      · simp only [ValueType.partOffset?, hv, hfirst, ho, Option.map_some]
      · rw [Layout.address?, hnext]
        exact hlast
      · rw [← Nat.add_assoc]
        exact hend
    · cases hpart

/-- A path to an address leads through the type. -/
theorem Represents.part?_of_address? {path : List Nat} {last : Nat}
    (h : Represents l.nodes used (t.shape rules) address offset)
    (hlast : l.address? path address = some last) : ∃ u, t.part? path = some u := by
  induction path generalizing t address offset with
  | nil => exact ⟨t, rfl⟩
  | cons index path ih =>
    rw [Layout.address?] at hlast
    split at hlast
    · rename_i next hnext
      rw [ValueType.shape_eq_node] at h
      obtain ⟨o, s, hpart, hnode⟩ := Layout.represents_of_child? h hnext
      obtain ⟨v, hv, rfl⟩ := ValueType.childType_of_shapeParts hpart
      obtain ⟨u, hu⟩ := ih hnode hlast
      exact ⟨u, by rw [ValueType.part?, hv]; exact hu⟩
    · cases hlast

end

end Shading
