import Mathlib
import Shading.Proofs.Layout.Parts

/-!
# Alignment of parts

All alignments are powers of two, so of two alignments the smaller divides the greater.
A compound type is aligned to the greatest alignment among its parts, and its parts start
at multiples of theirs; therefore a part of a part is aligned wherever the whole is.

Main results:

- Theorem `pack_aligned`: packing gives out multiples of the alignments.
- Theorem `ValueType.align_isPowerOfTwo`: alignments are powers of two.
- Theorem `ValueType.align_dvd_partOffset`: the parts of a type are aligned.
-/

namespace Shading

open List

theorem dvd_of_isPowerOfTwo_of_le {a b : Nat} (ha : a.isPowerOfTwo) (hb : b.isPowerOfTwo)
    (hle : a ≤ b) : a ∣ b := by
  obtain ⟨j, rfl⟩ := ha
  obtain ⟨k, rfl⟩ := hb
  exact Nat.pow_dvd_pow 2 ((Nat.pow_le_pow_iff_right Nat.one_lt_two).mp hle)

theorem dvd_roundUp (n align : Nat) : align ∣ roundUp n align :=
  Nat.dvd_mul_left _ _

/-! ## Packing -/

/-- A packing in which everything stands at a multiple of its alignment. -/
structure Packing.Aligned (p : Packing) (extents : List Extent) : Prop where
  isPowerOfTwo : p.align.isPowerOfTwo
  align_dvd : ∀ e ∈ extents, e.align ∣ p.align
  offset_dvd : ∀ {k o : Nat} {e : Extent}, p.offsets[k]? = some o → extents[k]? = some e →
    e.align ∣ o

theorem Packing.empty_aligned : Packing.empty.Aligned [] where
  isPowerOfTwo := Nat.isPowerOfTwo_one
  align_dvd := by simp
  offset_dvd := by simp

theorem Packing.Aligned.append {p : Packing} {extents : List Extent} (h : p.Aligned extents)
    (hlength : p.offsets.length = extents.length) {e : Extent} (he : e.align.isPowerOfTwo) :
    (p.append e).Aligned (extents ++ [e]) := by
  -- The greater one of the two alignments is a multiple of both.
  have hmax : (max p.align e.align).isPowerOfTwo ∧ p.align ∣ max p.align e.align ∧
      e.align ∣ max p.align e.align := by
    rcases Nat.le_total p.align e.align with hle | hle
    · rw [Nat.max_eq_right hle]
      exact ⟨he, dvd_of_isPowerOfTwo_of_le h.isPowerOfTwo he hle, Nat.dvd_refl _⟩
    · rw [Nat.max_eq_left hle]
      exact ⟨h.isPowerOfTwo, Nat.dvd_refl _, dvd_of_isPowerOfTwo_of_le he h.isPowerOfTwo hle⟩
  refine ⟨hmax.1, ?_, ?_⟩
  · intro e' he'
    rcases mem_append.mp he' with he' | he'
    · exact Nat.dvd_trans (h.align_dvd e' he') hmax.2.1
    · rw [mem_singleton.mp he']
      exact hmax.2.2
  · intro k o e' hk he'
    rcases Packing.range_append hlength hk he' with ⟨_, hk', he'⟩ | ⟨_, rfl, rfl⟩
    · exact h.offset_dvd hk' he'
    · exact dvd_roundUp _ _

/-- Packing gives out multiples of the alignments. -/
theorem pack_aligned {extents : List Extent} (h : ∀ e ∈ extents, e.align.isPowerOfTwo) :
    (pack extents).Aligned extents := by
  induction extents using List.reverseRecOn with
  | nil => exact Packing.empty_aligned
  | append_singleton extents e ih =>
    have hpack : pack (extents ++ [e]) = (pack extents).append e := by
      simp [pack]
    have hold : ∀ e' ∈ extents, e'.align.isPowerOfTwo :=
      fun e' he' => h e' (mem_append_left _ he')
    have horderly := pack_orderly extents fun e' he' => Nat.pos_of_isPowerOfTwo (hold e' he')
    rw [hpack]
    exact (ih hold).append horderly.length_eq (h e (by simp))

/-! ## Alignments of types -/

namespace LayoutRules

variable (rules : LayoutRules)

theorem scalarExtent_align_eq_size (element : ScalarType) :
    (rules.scalarExtent element).align = (rules.scalarExtent element).size := by
  cases rules <;> cases element <;> rfl

theorem scalarExtent_align_isPowerOfTwo (element : ScalarType) :
    (rules.scalarExtent element).align.isPowerOfTwo := by
  cases rules <;> cases element <;> first | exact ⟨0, rfl⟩ | exact ⟨2, rfl⟩ | exact ⟨3, rfl⟩

/-- Whatever its length, a vector is aligned to its components, by a power of two of them. -/
theorem exists_vectorExtent_align (element : ScalarType) (count : Nat) :
    ∃ k, (rules.vectorExtent element count).align
      = (rules.scalarExtent element).align * 2 ^ k := by
  unfold vectorExtent
  rw [scalarExtent_align_eq_size]
  cases rules with
  | scalar => exact ⟨0, by simp [scalarExtent_align_eq_size]⟩
  | gpuStorage =>
    dsimp only
    split
    · exact ⟨0, by simp [scalarExtent_align_eq_size]⟩
    · exact ⟨0, by simp [scalarExtent_align_eq_size]⟩
    · exact ⟨1, Nat.mul_comm _ _⟩
    · exact ⟨2, Nat.mul_comm _ _⟩
    · exact ⟨2, Nat.mul_comm _ _⟩

theorem scalarExtent_align_dvd_vectorExtent (element : ScalarType) (count : Nat) :
    (rules.scalarExtent element).align ∣ (rules.vectorExtent element count).align := by
  obtain ⟨k, hk⟩ := rules.exists_vectorExtent_align element count
  rw [hk]
  exact Nat.dvd_mul_right _ _

theorem vectorExtent_align_isPowerOfTwo (element : ScalarType)
    (count : Nat) : (rules.vectorExtent element count).align.isPowerOfTwo := by
  obtain ⟨j, hj⟩ := rules.scalarExtent_align_isPowerOfTwo element
  obtain ⟨k, hk⟩ := rules.exists_vectorExtent_align element count
  exact ⟨j + k, by rw [hk, hj, Nat.pow_add]⟩

end LayoutRules

namespace ValueType

mutual

/-- The alignment of a type is a power of two. -/
theorem align_isPowerOfTwo (rules : LayoutRules) (t : ValueType) :
    (t.extent rules).align.isPowerOfTwo := by
  cases t with
  | bool => exact rules.scalarExtent_align_isPowerOfTwo .bool
  | vector element count => exact rules.vectorExtent_align_isPowerOfTwo element count
  | color => exact rules.vectorExtent_align_isPowerOfTwo .float 3
  | matrix columns rows => exact rules.vectorExtent_align_isPowerOfTwo .float rows
  | array element count => exact align_isPowerOfTwo rules element
  | struct name fields => exact (pack_aligned (fieldAligns_isPowerOfTwo rules fields)).isPowerOfTwo
  | bsdf | edf | vdf => exact ⟨0, rfl⟩
  | double => exact ⟨3, rfl⟩
  | _ => exact ⟨2, rfl⟩

theorem fieldAligns_isPowerOfTwo (rules : LayoutRules) (fields : List (String × ValueType)) :
    ∀ e ∈ fieldExtents rules fields, e.align.isPowerOfTwo := by
  cases fields with
  | nil =>
    intro e he
    cases he
  | cons f rest =>
    intro e he
    rcases mem_cons.mp he with rfl | he
    · exact align_isPowerOfTwo rules f.2
    · exact fieldAligns_isPowerOfTwo rules rest e he

end

theorem extent_ofScalar (rules : LayoutRules) (element : ScalarType) :
    (ofScalar element).extent rules = rules.scalarExtent element := by
  cases rules <;> cases element <;> rfl

theorem dvd_of_strided {count stride index o : Nat}
    (ho : ((List.range count).map fun i => i * stride)[index]? = some o) : stride ∣ o := by
  obtain ⟨i, -, rfl⟩ := Option.map_eq_some_iff.mp (getElem?_map.symm.trans ho)
  exact Nat.dvd_mul_left stride i

/-- A part has an alignment that divides the alignment of the whole and its own offset. -/
theorem align_dvd_of_childType {t u : ValueType} {index o : Nat} (rules : LayoutRules)
    (hu : t.childType index = some u) (ho : (t.childOffsets rules)[index]? = some o) :
    u.align rules ∣ t.align rules ∧ u.align rules ∣ o := by
  cases t with
  | vector element size =>
    simp only [childType, Option.ite_none_right_eq_some, Option.some.injEq] at hu
    obtain ⟨-, rfl⟩ := hu
    unfold align
    rw [extent_ofScalar]
    refine ⟨rules.scalarExtent_align_dvd_vectorExtent element size, ?_⟩
    rw [rules.scalarExtent_align_eq_size]
    exact dvd_of_strided ho
  | matrix columns rows =>
    simp only [childType, Option.ite_none_right_eq_some, Option.some.injEq] at hu
    obtain ⟨-, rfl⟩ := hu
    exact ⟨Nat.dvd_refl _, Nat.dvd_trans (dvd_roundUp _ _) (dvd_of_strided ho)⟩
  | color =>
    simp only [childType, Option.ite_none_right_eq_some, Option.some.injEq] at hu
    obtain ⟨-, rfl⟩ := hu
    refine ⟨rules.scalarExtent_align_dvd_vectorExtent .float 3, ?_⟩
    have hmem := mem_of_getElem? ho
    simp only [childOffsets, mem_cons, not_mem_nil, or_false] at hmem
    change 4 ∣ o
    omega
  | array element size =>
    simp only [childType, Option.ite_none_right_eq_some, Option.some.injEq] at hu
    obtain ⟨-, rfl⟩ := hu
    exact ⟨Nat.dvd_refl _, Nat.dvd_trans (dvd_roundUp _ _) (dvd_of_strided ho)⟩
  | struct name fields =>
    obtain ⟨f, hf, rfl⟩ := Option.map_eq_some_iff.mp hu
    have haligned := pack_aligned (fieldAligns_isPowerOfTwo rules fields)
    have he : (fieldExtents rules fields)[index]? = some (f.2.extent rules) := by
      rw [fieldExtents_eq_map, getElem?_map, hf]
      rfl
    exact ⟨haligned.align_dvd _ (mem_of_getElem? he), haligned.offset_dvd ho he⟩
  | _ => cases hu

/-- A part of a part has an alignment that divides the alignment of the whole and its own
offset. -/
theorem align_dvd_partOffset {t u : ValueType} {path : List Nat} {o : Nat} (rules : LayoutRules)
    (hu : t.part? path = some u) (ho : t.partOffset? rules path = some o) :
    u.align rules ∣ t.align rules ∧ u.align rules ∣ o := by
  induction path generalizing t o with
  | nil =>
    cases hu
    cases ho
    exact ⟨Nat.dvd_refl _, Nat.dvd_zero _⟩
  | cons index path ih =>
    rw [part?] at hu
    split at hu
    · rename_i v hv
      rw [partOffset?, hv] at ho
      cases hfirst : (t.childOffsets rules)[index]? with
      | none => simp [hfirst] at ho
      | some first =>
        simp only [hfirst, Option.map_eq_some_iff] at ho
        obtain ⟨rest, hrest, rfl⟩ := ho
        obtain ⟨hwhole, hoffset⟩ := align_dvd_of_childType rules hv hfirst
        obtain ⟨hpart, hlast⟩ := ih hu hrest
        exact ⟨Nat.dvd_trans hpart hwhole, Nat.dvd_add (Nat.dvd_trans hpart hoffset) hlast⟩
    · cases hu

end ValueType

end Shading
