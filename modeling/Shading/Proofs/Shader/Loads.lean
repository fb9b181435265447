import Mathlib
import Shading.Proofs.Layout.Parts
import Shading.Proofs.Lowering.Constant
import Shading.Proofs.Shader.Names

/-!
# Loads in shader text

The packer places a value part by part, by the type of the parameter.  The shader reads it
part by part, by the type in which the value is carried, and finds the parts by itself.
Both walk the same tree: the expression that the shader contains puts the value together
from the words at which the layout has the leaves of the type.

Main definitions:

- `LoadTree` is an expression that reads a value, `LoadTree.Written` its text.
- `Layout.Reads` says that an expression reads what a layout has at an address.

Main results:

- Theorem `ValueType.extent_worded`: in storage buffers everything starts at a word.
- Theorem `loadText_writes`: a load is written, and reads what the layout has.
- Theorem `loads_read_packed_words` puts this together for the parts of parameters.
-/

namespace Shading

open List

variable {offset size : Nat} {element : ScalarType} {buffer : String}
  {fields : List (String × ValueType)}

namespace ValueType

/-! ## Parts of types -/

theorem storage_ofScalar (element : ScalarType) :
    (ofScalar element).storage = ofScalar element := by
  cases element <;> rfl

theorem storageFields_eq_map (fields : List (String × ValueType)) :
    storageFields fields = fields.map fun f => (f.1, f.2.storage) := by
  induction fields with
  | nil => rfl
  | cons f rest ih => rw [storageFields, ih, map_cons]

/-- The parts of a type are carried as parts of the type that carries it. -/
theorem childType_storage (t : ValueType) (index : Nat) :
    t.storage.childType index = (t.childType index).map storage := by
  cases t with
  | vector element size =>
    simp only [storage, childType]
    split
    · rw [Option.map_some, storage_ofScalar]
    · rfl
  | matrix columns rows =>
    simp only [storage, childType]
    split <;> rfl
  | color =>
    simp only [storage, childType]
    split <;> rfl
  | array element size =>
    simp only [storage, childType]
    split <;> rfl
  | struct name fields =>
    simp only [storage, childType, storageFields_eq_map, getElem?_map, Option.map_map]
    rfl
  | _ => rfl

theorem part?_storage (t : ValueType) (path : List Nat) :
    t.storage.part? path = (t.part? path).map storage := by
  induction path generalizing t with
  | nil => rfl
  | cons index path ih =>
    rw [part?, part?, childType_storage]
    cases t.childType index with
    | none => rfl
    | some u => exact ih u

theorem childOffsets_storage (rules : LayoutRules) (t : ValueType) :
    t.storage.childOffsets rules = t.childOffsets rules := by
  cases t with
  | array element size => simp only [storage, childOffsets, extent_storage]
  | struct name fields => simp only [storage, childOffsets, fieldExtents_storageFields]
  | _ => rfl

end ValueType

/-! ## Words -/

/-- Whole words: the size, and the alignment of everything that takes room. -/
structure Extent.Worded (e : Extent) : Prop where
  size : 4 ∣ e.size
  align : e.align = 1 ∨ 4 ∣ e.align

theorem four_dvd_roundUp {n align : Nat} (hn : 4 ∣ n) (halign : align = 1 ∨ 4 ∣ align) :
    4 ∣ roundUp n align := by
  rcases halign with rfl | halign
  · simpa [roundUp] using hn
  · exact Nat.dvd_trans halign (Nat.dvd_mul_left _ _)

theorem Extent.Worded.stride {e : Extent} (h : e.Worded) : 4 ∣ e.stride :=
  four_dvd_roundUp h.size h.align

/-- Packing whole words gives out whole words. -/
theorem pack_worded {extents : List Extent} (h : ∀ e ∈ extents, e.Worded) :
    (∀ o ∈ (pack extents).offsets, 4 ∣ o) ∧ 4 ∣ (pack extents).tail ∧
      ((pack extents).align = 1 ∨ 4 ∣ (pack extents).align) := by
  induction extents using List.reverseRecOn with
  | nil => exact ⟨forall_mem_nil _, Nat.dvd_zero 4, Or.inl rfl⟩
  | append_singleton extents e ih =>
    have hpack : pack (extents ++ [e]) = (pack extents).append e := by
      simp [pack]
    obtain ⟨hoffsets, htail, halign⟩ := ih fun e' he' => h e' (mem_append_left _ he')
    have he := h e (by simp)
    have hnext := four_dvd_roundUp htail he.align
    rw [hpack]
    refine ⟨fun o ho => ?_, Nat.dvd_add hnext he.size, ?_⟩
    · rcases mem_append.mp ho with ho | ho
      · exact hoffsets o ho
      · exact mem_singleton.mp ho ▸ hnext
    · change max (pack extents).align e.align = 1 ∨ 4 ∣ max (pack extents).align e.align
      rcases Nat.le_total (pack extents).align e.align with hle | hle
      · rw [Nat.max_eq_right hle]
        exact he.align
      · rw [Nat.max_eq_left hle]
        exact halign

theorem pack_extent_worded {extents : List Extent} (h : ∀ e ∈ extents, e.Worded) :
    (pack extents).extent.Worded :=
  ⟨four_dvd_roundUp (pack_worded h).2.1 (pack_worded h).2.2, (pack_worded h).2.2⟩

theorem vectorExtent_worded (element : ScalarType) (count : Nat) :
    (LayoutRules.gpuStorage.vectorExtent element count).Worded := by
  unfold LayoutRules.vectorExtent
  dsimp only
  split <;> cases element <;> exact ⟨by decide, Or.inr (by decide)⟩

namespace ValueType

mutual

/-- In storage buffers types take whole words. -/
theorem extent_worded (t : ValueType) : (t.extent .gpuStorage).Worded := by
  cases t with
  | vector element count => exact vectorExtent_worded element count
  | color => exact vectorExtent_worded .float 3
  | matrix columns rows =>
    have hcolumn := vectorExtent_worded .float rows
    exact ⟨Nat.dvd_trans hcolumn.stride (Nat.dvd_mul_left _ _), hcolumn.align⟩
  | array element count =>
    have helement := extent_worded element
    exact ⟨Nat.dvd_trans helement.stride (Nat.dvd_mul_left _ _), helement.align⟩
  | struct name fields => exact pack_extent_worded (fieldExtents_worded fields)
  | bsdf | edf | vdf => exact ⟨Nat.dvd_zero 4, Or.inl rfl⟩
  | double => exact ⟨⟨2, rfl⟩, Or.inr ⟨2, rfl⟩⟩
  | _ => exact ⟨⟨1, rfl⟩, Or.inr ⟨1, rfl⟩⟩

theorem fieldExtents_worded (fields : List (String × ValueType)) :
    ∀ e ∈ fieldExtents .gpuStorage fields, e.Worded := by
  cases fields with
  | nil =>
    intro e he
    cases he
  | cons f rest =>
    intro e he
    rcases mem_cons.mp he with rfl | he
    · exact extent_worded f.2
    · exact fieldExtents_worded rest e he

end

theorem four_dvd_childOffsets (t : ValueType) : ∀ o ∈ t.childOffsets .gpuStorage, 4 ∣ o := by
  have hstrided : ∀ {count stride : Nat}, 4 ∣ stride →
      ∀ o ∈ (List.range count).map fun i => i * stride, 4 ∣ o := by
    intro count stride hstride o ho
    obtain ⟨i, _, rfl⟩ := mem_map.mp ho
    exact Nat.dvd_trans hstride (Nat.dvd_mul_left _ _)
  cases t with
  | vector element count => exact hstrided (by cases element <;> decide)
  | color => decide
  | matrix columns rows => exact hstrided (vectorExtent_worded .float rows).stride
  | array element count => exact hstrided (extent_worded element).stride
  | struct name fields => exact (pack_worded (fieldExtents_worded fields)).1
  | _ => exact forall_mem_nil _

end ValueType

/-! ## Expressions that read -/

/-- An expression that reads a value from a buffer: a word, taken as a scalar, or a value of
a type, put together from its parts. -/
inductive LoadTree
  | word (scalar : ScalarType) (index : Nat)
  | parts (type : ValueType) (parts : List LoadTree)

/-- A word of a buffer in shader text. -/
def wordText (buffer : String) (index : Nat) : String :=
  buffer ++ "[" ++ toString index ++ "]"

/-- The text of an expression that reads a value. -/
inductive LoadTree.Written (names : ShaderNames) (buffer : String) : LoadTree → String → Prop
  | bool (index : Nat) :
      Written names buffer (.word .bool index) s!"({wordText buffer index} != 0u)"
  | int (index : Nat) :
      Written names buffer (.word .int index) s!"bitcast<i32>({wordText buffer index})"
  | float (index : Nat) :
      Written names buffer (.word .float index) s!"bitcast<f32>({wordText buffer index})"
  | parts {type : ValueType} {parts : List LoadTree} {name : String} {texts : List String}
      (named : names.HasName type name) (length_eq : parts.length = texts.length)
      (each : ∀ {k : Nat} {e : LoadTree} {text : String}, parts[k]? = some e →
        texts[k]? = some text → Written names buffer e text) :
      Written names buffer (.parts type parts) (partsText name texts)

/-- How a leaf of a kind is read. -/
def ValueKind.scalar : ValueKind → ScalarType
  | .bool => .bool
  | .float => .float
  | _ => .int

/-- An expression reads what a layout has at an address.  It has the tree of the type, each
type in the form in which it is carried; and it reads the words at which the layout has the
leaves. -/
inductive Layout.Reads (l : Layout) : ValueType → (address : Nat) → LoadTree → Prop
  | word {t : ValueType} {address index : Nat} (leaf : t.kind.isCompound = false)
      (entry : l.entry? address = some ⟨t.kind, 4, 4 * index⟩) :
      Reads l t address (.word t.kind.scalar index)
  | parts {t : ValueType} {address : Nat} {parts : List LoadTree}
      (compound : t.kind.isCompound = true) (count : l.elementCount address = t.childCount)
      (length_eq : parts.length = t.childCount)
      (each : ∀ {k next : Nat} {u : ValueType} {e : LoadTree}, t.childType k = some u →
        l.child? k address = some next → parts[k]? = some e → Reads l u next e) :
      Reads l t address (.parts t.storage parts)

theorem LoadTree.Written.mono {names later : ShaderNames} {buffer : String} {e : LoadTree}
    {text : String} (h : e.Written names buffer text) (hgrows : names.Grows later) :
    e.Written later buffer text := by
  induction h with
  | bool index => exact .bool index
  | int index => exact .int index
  | float index => exact .float index
  | parts named length_eq _ ih =>
    exact .parts (named.mono hgrows) length_eq fun he htext => ih he htext

/-! ## Writing expressions -/

/-- An expression with a property is written, whatever has been named before. -/
def Writes (buffer : String) (P : LoadTree → Prop) (m : ShaderM String) : Prop :=
  ∀ names, ∃ text later e, m.run names = .ok (text, later) ∧ names.Grows later ∧ P e ∧
    e.Written later buffer text

/-- A row of expressions is written, each with a property of its place. -/
def WritesAll (buffer : String) (P : Nat → LoadTree → Prop) (count : Nat)
    (m : ShaderM (List String)) : Prop :=
  ∀ names, ∃ texts later parts, m.run names = .ok (texts, later) ∧ names.Grows later ∧
    parts.length = count ∧ (∀ k e, parts[k]? = some e → P k e) ∧
    Forall₂ (LoadTree.Written later buffer) parts texts

section

variable {buffer : String} {P Q : LoadTree → Prop}

theorem Writes.mono {m : ShaderM String} (h : Writes buffer P m) (hPQ : ∀ e, P e → Q e) :
    Writes buffer Q m := by
  intro names
  obtain ⟨text, later, e, hrun, hgrows, he, hwritten⟩ := h names
  exact ⟨text, later, e, hrun, hgrows, hPQ e he, hwritten⟩

theorem writesAll_nil {P : Nat → LoadTree → Prop} : WritesAll buffer P 0 (pure []) :=
  fun names => ⟨[], names, [], rfl, .refl names, rfl, fun _ _ he => (by cases he), .nil⟩

theorem Writes.cons {P : Nat → LoadTree → Prop} {count : Nat} {m : ShaderM String}
    {rest : ShaderM (List String)} (h : Writes buffer (P 0) m)
    (hrest : WritesAll buffer (fun k => P (k + 1)) count rest) :
    WritesAll buffer P (count + 1) (do
      let part ← m
      let others ← rest
      return part :: others) := by
  intro names
  obtain ⟨text, mid, e, hrun, hgrows, he, hwritten⟩ := h names
  obtain ⟨texts, later, parts, hruns, hgrows', hlength, hparts, hwrittens⟩ := hrest mid
  refine ⟨text :: texts, later, e :: parts, ?_, hgrows.trans hgrows', congrArg (· + 1) hlength,
    ?_, .cons (hwritten.mono hgrows') hwrittens⟩
  · rw [ShaderM.run_bind_of_ok hrun, ShaderM.run_bind_of_ok hruns]
    rfl
  · intro k e' hk
    cases k with
    | zero =>
      cases hk
      exact he
    | succ k => exact hparts k e' hk

theorem writesAll_mapM {α : Type} {P : Nat → LoadTree → Prop} {f : α → ShaderM String}
    {xs : List α} (h : ∀ {k : Nat} {x : α}, xs[k]? = some x → Writes buffer (P k) (f x)) :
    WritesAll buffer P xs.length (xs.mapM f) := by
  induction xs generalizing P with
  | nil => exact writesAll_nil
  | cons x xs ih =>
    rw [mapM_cons]
    exact Writes.cons (h rfl) (ih fun hk => h (getElem?_cons_succ.trans hk))

/-- A value is put together from the parts that were written. -/
theorem WritesAll.parts {P : Nat → LoadTree → Prop} {count : Nat} {m : ShaderM (List String)}
    {type : ValueType} (htype : type.expressible = true) (h : WritesAll buffer P count m)
    (hQ : ∀ parts : List LoadTree, parts.length = count →
      (∀ k e, parts[k]? = some e → P k e) → Q (.parts type parts)) :
    Writes buffer Q (do
      let parts ← m
      let name ← shaderType type
      return partsText name parts) := by
  intro names
  obtain ⟨texts, mid, parts, hrun, hgrows, hlength, hparts, hwritten⟩ := h names
  obtain ⟨name, later, hnamed⟩ := shaderType_names type htype mid
  refine ⟨partsText name texts, later, .parts type parts, ?_, hgrows.trans hnamed.grows,
    hQ parts hlength hparts, .parts hnamed.hasName hwritten.length_eq fun he htext => ?_⟩
  · rw [ShaderM.run_bind_of_ok hrun, ShaderM.run_bind_of_ok hnamed.run]
    rfl
  · obtain ⟨hk, rfl⟩ := List.getElem?_eq_some_iff.mp he
    obtain ⟨hk', rfl⟩ := List.getElem?_eq_some_iff.mp htext
    exact (hwritten.get hk hk').mono hnamed.grows

end

/-! ## Loads -/

theorem bufferWord_ok (buffer : String) (hoffset : 4 ∣ offset) :
    bufferWord buffer offset = .ok (wordText buffer (offset / 4)) := by
  unfold bufferWord
  rw [if_pos (Nat.mod_eq_zero_of_dvd hoffset)]
  rfl

/-- A scalar is read from its word. -/
theorem loadScalar_ok (buffer : String) (helement : element ≠ .double) (hoffset : 4 ∣ offset) :
    ∃ text, loadScalar buffer element offset = .ok text ∧
      ∀ names, LoadTree.Written names buffer (.word element (offset / 4)) text := by
  unfold loadScalar
  rw [bufferWord_ok buffer hoffset]
  cases element with
  | bool => exact ⟨_, rfl, fun names => .bool _⟩
  | int => exact ⟨_, rfl, fun names => .int _⟩
  | float => exact ⟨_, rfl, fun names => .float _⟩
  | double => exact absurd rfl helement

theorem loadScalars_ok (buffer : String) (helement : element ≠ .double) (hoffset : 4 ∣ offset)
    {offsets : List Nat} (hoffsets : ∀ o ∈ offsets, 4 ∣ o) :
    ∃ texts, (offsets.mapM fun o => loadScalar buffer element (offset + o)) = .ok texts ∧
      ∀ names, Forall₂ (LoadTree.Written names buffer)
        (offsets.map fun o => .word element ((offset + o) / 4)) texts := by
  induction offsets with
  | nil => exact ⟨[], rfl, fun names => .nil⟩
  | cons o rest ih =>
    obtain ⟨text, htext, hwritten⟩ := loadScalar_ok buffer helement
      (Nat.dvd_add hoffset (hoffsets o mem_cons_self))
    obtain ⟨texts, htexts, hwrittens⟩ := ih fun o' ho' => hoffsets o' (mem_cons_of_mem o ho')
    refine ⟨text :: texts, ?_, fun names => .cons (hwritten names) (hwrittens names)⟩
    rw [mapM_cons, htext, htexts]
    rfl

/-- A vector is put together from the words that it takes. -/
theorem loadVector_writes (buffer : String) {type : ValueType} {name : String}
    (helement : element ≠ .double) (hname : vectorName element size = .ok name)
    (htype : ∀ names : ShaderNames, names.HasName type name) (hoffset : 4 ∣ offset) :
    Writes buffer (fun e => e = .parts type
        (((ValueType.vector element size).childOffsets .gpuStorage).map fun o =>
          .word element ((offset + o) / 4)))
      (liftM (loadVector buffer element size offset)) := by
  intro names
  obtain ⟨texts, htexts, hwritten⟩ := loadScalars_ok buffer helement hoffset
    (ValueType.four_dvd_childOffsets (.vector element size))
  have hload : loadVector buffer element size offset = .ok (partsText name texts) := by
    unfold loadVector
    rw [bufferWord_ok buffer hoffset]
    dsimp only [bind, Except.bind]
    rw [htexts, hname]
    rfl
  refine ⟨_, names, _, ShaderM.run_liftM_of_ok hload names, .refl names, rfl,
    .parts (htype names) (hwritten names).length_eq fun he htext => ?_⟩
  obtain ⟨hk, rfl⟩ := List.getElem?_eq_some_iff.mp he
  obtain ⟨hk', rfl⟩ := List.getElem?_eq_some_iff.mp htext
  exact (hwritten names).get hk hk'

/-! ## Loads and layouts -/

section

variable {l : Layout} {used : Nat → Prop} {t u : ValueType} {address offset k : Nat}

/-- A path through a type leads to an address, at a word. -/
theorem Represents.address? {path : List Nat}
    (h : Represents l.nodes used (t.shape .gpuStorage) address offset) (hoffset : 4 ∣ offset)
    (hpart : t.part? path = some u) :
    ∃ last offset', l.address? path address = some last ∧ 4 ∣ offset' ∧
      Represents l.nodes used (u.shape .gpuStorage) last offset' := by
  induction path generalizing t address offset with
  | nil =>
    cases hpart
    exact ⟨address, offset, rfl, hoffset, h⟩
  | cons index path ih =>
    rw [ValueType.part?] at hpart
    split at hpart
    · rename_i v hv
      obtain ⟨o, next, ho, hnext, hnode⟩ := h.part hv
      have hword := t.four_dvd_childOffsets o (mem_of_getElem? ho)
      rw [Layout.address?, hnext]
      exact ih hnode (Nat.dvd_add hoffset hword) hpart
    · cases hpart

/-- An expression reads a part of the type at an address. -/
def Layout.ReadsPart (l : Layout) (t : ValueType) (address k : Nat) (e : LoadTree) : Prop :=
  ∀ u next, t.childType k = some u → l.child? k address = some next → l.Reads u next e

/-- A value is read if its parts are. -/
theorem Layout.reads_parts (hcompound : t.kind.isCompound = true)
    (h : Represents l.nodes used (t.shape .gpuStorage) address offset) {parts : List LoadTree}
    (hlength : parts.length = t.childCount)
    (hparts : ∀ k e, parts[k]? = some e → l.ReadsPart t address k e) :
    l.Reads t address (.parts t.storage parts) := by
  rw [ValueType.shape_eq_node] at h
  exact .parts hcompound (h.elementCount.trans (t.length_shapeParts _)) hlength
    fun hu hnext he => hparts _ _ he _ _ hu hnext

theorem Layout.reads_leaf (hleaf : t.kind.isCompound = false) (hsize : t.size .gpuStorage = 4)
    (h : Represents l.nodes used (t.shape .gpuStorage) address offset) (hoffset : 4 ∣ offset) :
    l.Reads t address (.word t.kind.scalar (offset / 4)) := by
  rw [ValueType.shape_eq_node, hsize] at h
  refine .word hleaf ?_
  rw [h.entry?, Nat.mul_div_cancel' hoffset]

/-- A part is read if it is read wherever the layout has it. -/
theorem Writes.readsPart {m : ShaderM String} {o : Nat}
    (h : Represents l.nodes used (t.shape .gpuStorage) address offset) (hu : t.childType k = some u)
    (ho : (t.childOffsets .gpuStorage)[k]? = some o)
    (hm : ∀ next, Represents l.nodes used (u.shape .gpuStorage) next (offset + o) →
      Writes buffer (l.Reads u next) m) : Writes buffer (l.ReadsPart t address k) m := by
  obtain ⟨o', next, ho', hnext, hnode⟩ := h.part hu
  cases ho.symm.trans ho'
  refine (hm next hnode).mono fun e he u' next' hu' hnext' => ?_
  cases hu.symm.trans hu'
  cases hnext.symm.trans hnext'
  exact he

theorem reads_ofScalar (helement : element ≠ .double)
    (h : Represents l.nodes used ((ValueType.ofScalar element).shape .gpuStorage) address offset)
    (hoffset : 4 ∣ offset) : l.Reads (.ofScalar element) address (.word element (offset / 4)) := by
  cases element with
  | double => exact absurd rfl helement
  | _ => exact Layout.reads_leaf rfl rfl h hoffset

/-- The words of a vector are those at which the layout has its components.  This is said of
all types with the parts of a vector. -/
theorem reads_vector (helement : element ≠ .double) (hcompound : t.kind.isCompound = true)
    (htypes : t.childType = (ValueType.vector element size).childType)
    (hoffsets : t.childOffsets .gpuStorage
      = (ValueType.vector element size).childOffsets .gpuStorage)
    (h : Represents l.nodes used (t.shape .gpuStorage) address offset) (hoffset : 4 ∣ offset) :
    l.Reads t address (.parts t.storage (((ValueType.vector element size).childOffsets
      .gpuStorage).map fun o => .word element ((offset + o) / 4))) := by
  rw [← hoffsets]
  refine Layout.reads_parts hcompound h ?_ fun k e he u next hu hnext => ?_
  · rw [length_map, ValueType.length_childOffsets]
  · obtain ⟨o, ho, rfl⟩ := Option.map_eq_some_iff.mp (getElem?_map.symm.trans he)
    obtain ⟨o', next', ho', hnext', hnode⟩ := h.part hu
    cases ho.symm.trans ho'
    cases hnext.symm.trans hnext'
    rw [htypes] at hu
    obtain ⟨_, rfl⟩ : k < size ∧ .ofScalar element = u := by
      simpa [ValueType.childType] using hu
    have hword := t.four_dvd_childOffsets o (mem_of_getElem? ho)
    exact reads_ofScalar helement hnode (Nat.dvd_add hoffset hword)

/-- A type is read as the layout has it. -/
def LoadsRight (l : Layout) (used : Nat → Prop) (buffer : String) (t : ValueType) : Prop :=
  ∀ address offset, Represents l.nodes used (t.shape .gpuStorage) address offset → 4 ∣ offset →
    Writes buffer (l.Reads t address) (loadText buffer t.storage offset)

/-- A leaf is read as a scalar. -/
theorem loadsRight_leaf (buffer : String) (hleaf : t.kind.isCompound = false)
    (hsize : t.size .gpuStorage = 4) (hload : ∀ offset, loadText buffer t.storage offset
      = liftM (loadScalar buffer t.kind.scalar offset)) : LoadsRight l used buffer t := by
  intro address offset h hoffset names
  have hscalar : t.kind.scalar ≠ .double := by
    cases t.kind <;> exact nofun
  obtain ⟨text, htext, hwritten⟩ := loadScalar_ok buffer hscalar hoffset
  rw [hload]
  exact ⟨text, names, _, ShaderM.run_liftM_of_ok htext names, .refl names,
    Layout.reads_leaf hleaf hsize h hoffset, hwritten names⟩

/-- A vector is read as a vector. -/
theorem loadsRight_vector (buffer : String)
    (ht : (ValueType.vector element size).expressible = true) :
    LoadsRight l used buffer (.vector element size) := by
  obtain ⟨helement, hsize⟩ := Bool.and_eq_true_iff.mp ht
  have hdouble := bne_iff_ne.mp helement
  obtain ⟨name, hname⟩ := vectorName_ok hdouble hsize
  have hnamed : ∀ names : ShaderNames, names.HasName (.vector element size) name := by
    intro names later _
    rw [shaderType]
    exact ShaderM.run_liftM_of_ok hname later
  intro address offset h hoffset
  refine (loadVector_writes buffer hdouble hname hnamed hoffset).mono ?_
  rintro e rfl
  exact reads_vector hdouble rfl rfl rfl h hoffset

theorem loadsRight_color (buffer : String) : LoadsRight l used buffer .color := by
  have hname : vectorName .float 3 = .ok "vec3<f32>" := by decide
  have hnamed : ∀ names : ShaderNames, names.HasName .color "vec3<f32>" :=
    fun names later _ => rfl
  intro address offset h hoffset
  refine (loadVector_writes buffer (by decide) hname hnamed hoffset).mono ?_
  rintro e rfl
  exact reads_vector (by decide) rfl rfl rfl h hoffset

/-- A value with parts is read right if its parts are. -/
theorem loadsRight_parts (ht : t.expressible = true) (hcompound : t.kind.isCompound = true)
    (m : Nat → ShaderM (List String)) (hload : ∀ offset, loadText buffer t.storage offset = do
      let _ ← liftM (bufferWord buffer offset)
      let parts ← m offset
      let name ← shaderType t.storage
      return partsText name parts)
    (hparts : ∀ address offset, Represents l.nodes used (t.shape .gpuStorage) address offset →
      4 ∣ offset → WritesAll buffer (l.ReadsPart t address) t.childCount (m offset)) :
    LoadsRight l used buffer t := by
  intro address offset h hoffset names
  have htype : t.storage.expressible = true := t.expressible_storage.trans ht
  rw [hload, ShaderM.run_bind_of_ok
    (ShaderM.run_liftM_of_ok (bufferWord_ok buffer hoffset) names)]
  exact (hparts address offset h hoffset).parts htype
    (fun parts hlength hread => Layout.reads_parts hcompound h hlength hread) names

/-- Parts of one type are read right if this type is. -/
theorem writesAll_same {f : Nat → ShaderM String} (hu : ∀ k < t.childCount, t.childType k = some u)
    (hf : ∀ next o, Represents l.nodes used (u.shape .gpuStorage) next o → 4 ∣ o →
      Writes buffer (l.Reads u next) (f o))
    (h : Represents l.nodes used (t.shape .gpuStorage) address offset) (hoffset : 4 ∣ offset) :
    WritesAll buffer (l.ReadsPart t address) t.childCount
      ((t.childOffsets .gpuStorage).mapM fun o => f (offset + o)) := by
  have hlength := t.length_childOffsets .gpuStorage
  rw [← hlength]
  refine writesAll_mapM fun {k o} ho => ?_
  have hk : k < t.childCount := hlength ▸ (List.getElem?_eq_some_iff.mp ho).1
  have hword := t.four_dvd_childOffsets o (mem_of_getElem? ho)
  exact Writes.readsPart h (hu k hk) ho fun next hnode =>
    hf next _ hnode (Nat.dvd_add hoffset hword)

theorem loadFields_writesAll {P : Nat → LoadTree → Prop} {offsets : List Nat}
    (hlength : offsets.length = fields.length)
    (h : ∀ k f o, fields[k]? = some f → offsets[k]? = some o →
      Writes buffer (P k) (loadText buffer f.2 o)) :
    WritesAll buffer P fields.length (loadFields buffer fields offsets) := by
  induction fields generalizing offsets P with
  | nil =>
    rw [eq_nil_of_length_eq_zero hlength]
    exact writesAll_nil
  | cons f rest ih =>
    obtain ⟨o, offsets, rfl⟩ := exists_cons_of_length_eq_add_one hlength
    rw [loadFields]
    refine (h 0 f o rfl rfl).cons (ih (Nat.succ.inj hlength) fun k g o' hg ho' => ?_)
    exact h (k + 1) g o' hg ho'

/-- The fields of a structure are read right if their types are. -/
theorem loadFields_readsPart {name : String} (hfields : ∀ f ∈ fields, LoadsRight l used buffer f.2)
    (h : Represents l.nodes used ((ValueType.struct name fields).shape .gpuStorage) address offset)
    (hoffset : 4 ∣ offset) :
    WritesAll buffer (l.ReadsPart (.struct name fields) address) fields.length
      (loadFields buffer (ValueType.storageFields fields)
        (((ValueType.struct name fields).childOffsets .gpuStorage).map (offset + ·))) := by
  have hlength : (((ValueType.struct name fields).childOffsets .gpuStorage).map
      (offset + ·)).length = (ValueType.storageFields fields).length := by
    rw [length_map, ValueType.length_childOffsets, ValueType.storageFields_eq_map,
      length_map]
    rfl
  have hcount : fields.length = (ValueType.storageFields fields).length := by
    rw [ValueType.storageFields_eq_map, length_map]
  rw [hcount]
  refine loadFields_writesAll hlength fun k f o hf ho => ?_
  rw [ValueType.storageFields_eq_map, getElem?_map] at hf
  rw [getElem?_map] at ho
  obtain ⟨g, hg, rfl⟩ := Option.map_eq_some_iff.mp hf
  obtain ⟨o', ho', rfl⟩ := Option.map_eq_some_iff.mp ho
  have hpart : (ValueType.struct name fields).childType k = some g.2 := by
    rw [ValueType.childType, hg]
    rfl
  have hword := ValueType.four_dvd_childOffsets _ o' (mem_of_getElem? ho')
  exact Writes.readsPart h hpart ho' fun next hnode =>
    hfields g (mem_of_getElem? hg) next _ hnode (Nat.dvd_add hoffset hword)

end

mutual

/-- A load is written, and reads what the layout has. -/
theorem loadText_writes (l : Layout) (used : Nat → Prop) (buffer : String) (t : ValueType)
    (ht : t.expressible = true) : LoadsRight l used buffer t := by
  cases t with
  | double | bsdf | edf | vdf => cases ht
  | vector element size => exact loadsRight_vector buffer ht
  | color => exact loadsRight_color buffer
  | matrix columns rows =>
    obtain ⟨-, hrows⟩ := Bool.and_eq_true_iff.mp ht
    have hcolumn : LoadsRight l used buffer (.vector .float rows) := loadsRight_vector buffer hrows
    refine loadsRight_parts ht rfl
      (fun offset => ((ValueType.matrix columns rows).childOffsets .gpuStorage).mapM
        fun o => liftM (loadVector buffer .float rows (offset + o)))
      (fun offset => ?_) fun address offset h hoffset => ?_
    · change loadText buffer (.matrix columns rows) offset = _
      rw [loadText]
      rfl
    · have hcolumns : ∀ k < (ValueType.matrix columns rows).childCount,
          (ValueType.matrix columns rows).childType k = some (.vector .float rows) :=
        fun k hk => if_pos hk
      exact writesAll_same hcolumns hcolumn h hoffset
  | array element size =>
    have helement := loadText_writes l used buffer element ht
    have hdistribution : element.storage.distribution? = none :=
      ValueType.distribution?_of_expressible (element.expressible_storage.trans ht)
    have hoffsets := (ValueType.array element size).childOffsets_storage .gpuStorage
    refine loadsRight_parts ht rfl
      (fun offset => ((ValueType.array element size).childOffsets .gpuStorage).mapM
        fun o => loadText buffer element.storage (offset + o))
      (fun offset => ?_) fun address offset h hoffset => ?_
    · rw [← hoffsets]
      change loadText buffer (.array element.storage size) offset = _
      rw [loadText, hdistribution]
      rfl
    · have helements : ∀ k < (ValueType.array element size).childCount,
          (ValueType.array element size).childType k = some element :=
        fun k hk => if_pos hk
      exact writesAll_same helements helement h hoffset
  | struct name fields =>
    have hfields := loadFields_write l used buffer fields ht
    have hdistribution : ValueType.distributionField? (ValueType.storageFields fields) = none :=
      ValueType.distributionField?_of_expressible
        ((ValueType.fieldsExpressible_storageFields fields).trans ht)
    have hoffsets := (ValueType.struct name fields).childOffsets_storage .gpuStorage
    refine loadsRight_parts ht rfl
      (fun offset => loadFields buffer (ValueType.storageFields fields)
        (((ValueType.struct name fields).childOffsets .gpuStorage).map (offset + ·)))
      (fun offset => ?_) fun address offset h hoffset => ?_
    · rw [← hoffsets]
      change loadText buffer (.struct name (ValueType.storageFields fields)) offset = _
      rw [loadText, hdistribution]
      rfl
    · exact loadFields_readsPart hfields h hoffset
  | _ => exact loadsRight_leaf buffer rfl rfl fun offset => rfl

/-- The fields are read as the layout has them. -/
theorem loadFields_write (l : Layout) (used : Nat → Prop) (buffer : String)
    (fields : List (String × ValueType)) (hfields : ValueType.fieldsExpressible fields = true) :
    ∀ f ∈ fields, LoadsRight l used buffer f.2 := by
  cases fields with
  | nil =>
    intro f hf
    cases hf
  | cons f rest =>
    obtain ⟨name, t⟩ := f
    obtain ⟨ht, hrest⟩ := Bool.and_eq_true_iff.mp hfields
    intro g hg
    rcases mem_cons.mp hg with heq | hg
    · rw [heq]
      exact loadText_writes l used buffer t ht
    · exact loadFields_write l used buffer rest hrest g hg

end

/-- The shader reads the words that the packer writes.  Take a part of a parameter whose type
the shading language can express.  Carrying it changes no size, alignment or offset in it; the
load of it succeeds, wherever it lies and whatever has been named before; and it is the
expression that puts the value together from the words at which the layout of the argument
block has its leaves. -/
theorem loads_read_packed_words {parameters : List Parameter} {l : Layout}
    (hl : Layout.build parameters .gpuStorage = .ok l) {index : Nat} {p : Parameter}
    (hp : parameters[index]? = some p) {path : List Nat} {t : ValueType}
    (ht : p.type.part? path = some t) (hexpressible : t.expressible = true)
    (buffer : String) (names : ShaderNames) :
    (∀ inner, t.storage.part? inner = (t.part? inner).map ValueType.storage) ∧
    (∀ inner u, t.part? inner = some u →
      u.storage.size .gpuStorage = u.size .gpuStorage ∧
        u.storage.align .gpuStorage = u.align .gpuStorage ∧
        u.storage.childOffsets .gpuStorage = u.childOffsets .gpuStorage) ∧
    ∃ address entry text later e,
      l.address? (index :: path) Layout.root = some address ∧ l.entry? address = some entry ∧
        (loadText buffer t.storage entry.offset).run names = .ok (text, later) ∧
        names.Grows later ∧ l.Reads t address e ∧ e.Written later buffer text := by
  refine ⟨t.part?_storage, fun inner u _ => ?_, ?_⟩
  · have hextent := u.extent_storage .gpuStorage
    exact ⟨congrArg Extent.size hextent, congrArg Extent.align hextent,
      u.childOffsets_storage .gpuStorage⟩
  · -- The block has the shape of a structure with the parameters as its fields.
    have hblock := (Layout.represents_of_build hl).2
    have hfields : parameters.map (·.type)
        = (parameters.map fun p => (p.name, p.type)).map Prod.snd := by
      rw [map_map]
      rfl
    rw [hfields, ← ValueType.shape_struct .gpuStorage ""] at hblock
    have hpart : (ValueType.struct "" (parameters.map fun p => (p.name, p.type))).part?
        (index :: path) = some t := by
      rw [ValueType.part?, ValueType.childType, getElem?_map, hp]
      exact ht
    obtain ⟨address, offset, haddress, hoffset, hnode⟩ :=
      hblock.address? (Nat.dvd_zero 4) hpart
    obtain ⟨text, later, e, hrun, hgrows, hreads, hwritten⟩ :=
      loadText_writes l _ buffer t hexpressible address offset hnode hoffset names
    rw [ValueType.shape_eq_node] at hnode
    exact ⟨address, _, text, later, e, haddress, hnode.entry?, hrun, hgrows, hreads, hwritten⟩

/-- A number, and a structure whose second field does not follow its first. -/
def glossParameters : List Parameter :=
  [⟨"level", .float, .float 1⟩,
   ⟨"gloss", .struct "gloss" [("on", .bool), ("tint", .vector .float 2)],
    .struct [.bool true, .vector [.float 1, .float 2]]⟩]

/-- The structure starts at word 2 and its vector at word 4. -/
theorem loads_read_packed_words_gloss :
    ∃ l p e later, Layout.build glossParameters .gpuStorage = .ok l ∧
      glossParameters[1]? = some p ∧ p.type.expressible = true ∧
      l.address? [1] Layout.root = some 2 ∧ l.Reads p.type 2 e ∧
      e.Written later "args"
        "S_gloss((args[2] != 0u), vec2<f32>(bitcast<f32>(args[4]), bitcast<f32>(args[5])))" := by
  have hl : Layout.build glossParameters .gpuStorage = .ok _ := rfl
  have hp : glossParameters[1]? = some _ := rfl
  have ht : (ValueType.struct "gloss" [("on", .bool), ("tint", .vector .float 2)]).part? [] =
    some _ := rfl
  have htext : ((loadText "args" (.struct "gloss" [("on", .bool), ("tint", .vector .float 2)])
      8).run .empty).map Prod.fst = .ok
        "S_gloss((args[2] != 0u), vec2<f32>(bitcast<f32>(args[4]), bitcast<f32>(args[5])))" := by
    cbv
  obtain ⟨-, -, address, entry, text, later, e, haddress, hentry, hrun, -, hreads, hwritten⟩ :=
    loads_read_packed_words hl hp ht rfl "args" .empty
  cases haddress
  cases hentry
  cases (congrArg (Except.map Prod.fst) hrun).symm.trans htext
  exact ⟨_, _, e, later, hl, hp, rfl, rfl, hreads, hwritten⟩

end Shading
