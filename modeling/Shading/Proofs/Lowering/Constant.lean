import Shading.Proofs.Layout.Frame
import Shading.Proofs.Layout.RoundTrip
import Shading.Proofs.Lowering.Reference
import Shading.Proofs.Lowering.Step

/-!
# Lowering of constants is right

The instructions of a literal compute its value.  Its strings and its place in the
read-only data are looked up in the pool as it is when lowering is over, so the proofs
rest on pools that only grow.

Main results:

- Theorem `Layout.pack_congr`: packing depends on the indices of what occurs.
- Theorem `roBytes_of_grows`: the bytes of a constant stay the same when strings are added.
- Theorem `lowerConstant_computes`: the instructions of a literal compute its value.
- Theorem `lowerConstant_emits`: literals are lowered by steps.
-/

namespace Shading

open List

/-! ## The bytes of a constant -/

/-- Two resolvers give the same indices to the strings and the resources among some
literals. -/
structure IndexResolver.AgreesOn (r r' : IndexResolver) (leaves : List Value) : Prop where
  strings : ∀ s, .string s ∈ leaves → r.stringIndex s = r'.stringIndex s
  resources : ∀ v ∈ leaves, ∀ ref, v.resource? = some ref →
    r.resourceIndex ref = r'.resourceIndex ref

theorem IndexResolver.AgreesOn.mono {r r' : IndexResolver} {leaves fewer : List Value}
    (h : r.AgreesOn r' leaves) (hsub : fewer ⊆ leaves) : r.AgreesOn r' fewer where
  strings s hs := h.strings s (hsub hs)
  resources v hv := h.resources v (hsub hv)

namespace Layout

variable {l : Layout} {r r' : IndexResolver}

theorem packLeaf_congr {v : Value} {address : Nat} (h : r.AgreesOn r' [v]) :
    l.packLeaf r v address = l.packLeaf r' v address := by
  have hresource := h.resources v mem_cons_self
  have hbytes : ∀ size, leafBytes r size v = leafBytes r' size v := by
    intro size
    cases v <;> simp [leafBytes, Value.resource?] at hresource ⊢ <;> try rw [hresource]
    rename_i s
    rw [h.strings s mem_cons_self]
  unfold packLeaf
  simp only [hbytes]

mutual

/-- Packing depends on the indices of the resources and of the strings that occur. -/
theorem pack_congr (v : Value) (address : Nat) (h : r.AgreesOn r' v.flatten) :
    l.pack r v address = l.pack r' v address := by
  cases v with
  | vector parts | matrix parts | array parts | struct parts =>
    have hparts := fun address =>
      packAll_congr parts address (h.mono (subset_cons_self _ _))
    simp only [pack, hparts]
  | color x y z =>
    have hfloat : ∀ x address,
        l.packLeaf r (.float x) address = l.packLeaf r' (.float x) address := by
      intro x address
      refine packLeaf_congr ⟨fun s hs => ?_, fun v hv ref href => ?_⟩
      · cases mem_singleton.mp hs
      · rw [mem_singleton.mp hv] at href
        cases href
    simp only [pack, hfloat]
  | _ =>
    simp only [pack]
    exact packLeaf_congr h

theorem packAll_congr (vs : List Value) (address : Nat) (h : r.AgreesOn r' (Value.flattenAll vs)) :
    l.packAll r vs address = l.packAll r' vs address := by
  cases vs with
  | nil => simp only [packAll]
  | cons v vs =>
    have hv := pack_congr v address (h.mono (subset_append_left _ _))
    have hvs := packAll_congr vs (address + 1) (h.mono (subset_append_right _ _))
    simp only [packAll, hv, hvs]

end

end Layout

section

variable (env : LowerEnv) (v : Value) (t : ValueType)

/-- The strings that are known when a constant is packed. -/
def LowerEnv.packedStrings (strings : List String) : List String :=
  if env.options.mapStringsToIds then internStrings strings v.strings else strings

/-- The bytes of a fresh block into which the constant was packed. -/
def Layout.packed? (l : Layout) (address : Nat) (r : IndexResolver) : Option Bytes :=
  let outcome := l.setValue r v address l.newBlock
  outcome.1.toOption.map fun _ => outcome.2

/-- A constant either stays out of the read-only data, whatever strings are known, or is
packed in a way that depends on the ids of its strings only. -/
theorem roBytes_cases :
    (∀ strings, env.roBytes v t strings = (none, strings)) ∨
      ∃ packed : IndexResolver → Option Bytes,
        (∀ r r' : IndexResolver, r.AgreesOn r' v.flatten → packed r = packed r') ∧
        ∀ strings, env.roBytes v t strings =
          (packed (env.indexResolver (env.packedStrings v strings)),
            env.packedStrings v strings) := by
  unfold LowerEnv.roBytes
  split
  · exact Or.inl fun _ => rfl
  · split
    · exact Or.inl fun _ => rfl
    · rename_i layout _
      split
      · exact Or.inl fun _ => rfl
      · refine Or.inr ?_
        cases hchild : layout.child? 0 Layout.root with
        | none => exact ⟨fun _ => none, fun _ _ _ => rfl, fun _ => rfl⟩
        | some address =>
          refine ⟨fun r => layout.packed? v address r, ?_, ?_⟩
          · intro r r' hagrees
            simp only [Layout.packed?, Layout.setValue, Layout.pack_congr v address hagrees]
          · intro strings
            simp only [Layout.packed?, LowerEnv.packedStrings]
            split
            · rename_i hset
              rw [hset]
              rfl
            · rename_i hset
              rw [hset]
              rfl

/-- The strings of a constant have the same ids when strings are added. -/
theorem stringIndex_of_grows {strings longer : List String}
    (h : env.packedStrings v strings <+: longer) {s : String} (hs : .string s ∈ v.flatten) :
    (env.indexResolver (env.packedStrings v longer)).stringIndex s =
      (env.indexResolver (env.packedStrings v strings)).stringIndex s := by
  unfold LowerEnv.packedStrings LowerEnv.indexResolver at *
  by_cases hmap : env.options.mapStringsToIds = true
  · simp only [hmap, if_true] at h ⊢
    obtain ⟨id, hid⟩ : ∃ id, stringId? (internStrings strings v.strings) s = some id :=
      stringId?_internStrings (Value.mem_strings.mpr hs)
    rw [hid, stringId?_of_grows (h.trans (internStrings_grows longer v.strings)) hid]
  · simp only [hmap, Bool.false_eq_true, if_false]

theorem roBytes_grows (strings : List String) : strings <+: (env.roBytes v t strings).2 := by
  rcases roBytes_cases env v t with hnone | ⟨packed, _, hpacked⟩
  · have hsame : (env.roBytes v t strings).2 = strings := by rw [hnone]
    exact hsame.symm ▸ prefix_refl _
  · rw [hpacked]
    unfold LowerEnv.packedStrings
    split
    · exact internStrings_grows _ _
    · exact prefix_refl _

/-- The bytes of a constant stay the same when strings are added. -/
theorem roBytes_of_grows {strings longer : List String}
    (h : (env.roBytes v t strings).2 <+: longer) :
    (env.roBytes v t longer).1 = (env.roBytes v t strings).1 := by
  rcases roBytes_cases env v t with hnone | ⟨packed, hcongr, hpacked⟩
  · rw [hnone, hnone]
  · rw [hpacked] at h
    rw [hpacked, hpacked]
    exact hcongr _ _ ⟨fun s hs => stringIndex_of_grows env v h hs, fun _ _ _ _ => rfl⟩

end

/-! ## Places and handles -/

namespace ValueType

mutual

/-- Carrying a value in another type takes the same room. -/
@[simp] theorem extent_storage (rules : LayoutRules) (t : ValueType) :
    t.storage.extent rules = t.extent rules := by
  cases t with
  | array element count => simp only [storage, extent, extent_storage rules element]
  | struct name fields => simp only [storage, extent, fieldExtents_storageFields rules fields]
  | _ => rfl

theorem fieldExtents_storageFields (rules : LayoutRules) (fields : List (String × ValueType)) :
    fieldExtents rules (storageFields fields) = fieldExtents rules fields := by
  cases fields with
  | nil => rfl
  | cons f rest =>
    simp only [storageFields, fieldExtents, extent_storage rules f.2,
      fieldExtents_storageFields rules rest]

end

@[simp] theorem size_storage (rules : LayoutRules) (t : ValueType) :
    t.storage.size rules = t.size rules :=
  congrArg Extent.size (extent_storage rules t)

/-- A structure has room for each of its parts. -/
theorem size_le_structShape {rules : LayoutRules} {t : ValueType} {types : List ValueType}
    {k offset : Nat} (ht : types[k]? = some t)
    (hoffset : (pack (types.map (extent rules))).offsets[k]? = some offset) :
    offset + t.size rules ≤ (structShape rules types).size := by
  have horderly := pack_types_orderly rules types
  have hend : offset + (t.extent rules).size ≤ (pack (types.map (extent rules))).tail :=
    horderly.end_le hoffset (by rw [getElem?_map, ht]; rfl)
  exact Nat.le_trans hend (le_roundUp _ horderly.align_pos)

end ValueType

/-- How the bytes of a constant in the read-only data come about: the constant is packed
alone into a fresh block, so it starts at the first byte. -/
theorem roBytes_eq_some {env : LowerEnv} {v : Value} {t : ValueType} {strings known : List String}
    {bytes : Bytes} (h : env.roBytes v t strings = (some bytes, known)) :
    ∃ (layout : Layout) (address : Nat), known = env.packedStrings v strings ∧
      Layout.build [⟨"", t, v⟩] env.rules = .ok layout ∧
      layout.child? 0 Layout.root = some address ∧
      (layout.pack (env.indexResolver known) v address).run layout.newBlock = (.ok (), bytes) ∧
      Represents layout.nodes (fun _ => True) (t.shape env.rules) address 0 ∧
      t.size env.rules ≤ layout.newBlock.length := by
  unfold LowerEnv.roBytes at h
  split at h
  · cases h
  split at h
  · cases h
  rename_i layout hbuild
  split at h
  · cases h
  dsimp only at h
  split at h
  · cases h
  rename_i address haddress
  obtain ⟨_, hnodes⟩ := Layout.represents_of_build hbuild
  have hoffset : (pack ([t].map (ValueType.extent env.rules))).offsets[0]? = some 0 := by
    have hpos := ValueType.extent_align_pos env.rules t
    have hdiv : ((t.extent env.rules).align - 1) / (t.extent env.rules).align = 0 :=
      Nat.div_eq_of_lt (Nat.sub_lt hpos Nat.one_pos)
    simp [pack, Packing.append, Packing.empty, roundUp, hdiv]
  have hroom := ValueType.size_le_structShape (k := 0) (rfl : [t][0]? = some t) hoffset
  rw [Nat.zero_add] at hroom
  obtain ⟨next, hnext, hpart⟩ := hnodes.child? (k := 0) (o := 0) (s := t.shape env.rules)
    (getElem?_zip_eq_some.mpr ⟨hoffset, rfl⟩)
  rw [haddress] at hnext
  cases hnext
  split at h
  · rename_i packed hset
    cases h
    refine ⟨layout, address, rfl, hbuild, haddress, hset, hpart, ?_⟩
    rw [Layout.length_newBlock hnodes]
    exact hroom
  · cases h

/-- The bytes of a constant in the read-only data fill its type. -/
theorem size_le_roBytes {env : LowerEnv} {v : Value} {t : ValueType} {strings known : List String}
    {bytes : Bytes}
    (h : env.roBytes v t strings = (some bytes, known)) : t.size env.rules ≤ bytes.length := by
  obtain ⟨layout, address, _, _, _, hrun, hnodes, hroom⟩ := roBytes_eq_some h
  have hchanged :=
    (Layout.pack_touches (r := env.indexResolver known) hnodes v layout.newBlock).1
  rw [hrun] at hchanged
  exact Nat.le_trans hroom (Nat.le_of_eq hchanged.length_eq.symm)

theorem roBytes_reaches (env : LowerEnv) (p : DataPool) (v : Value) (t : ValueType) :
    p.Reaches { p with strings := (env.roBytes v t p.strings).2 } := by
  rcases roBytes_cases env v t with hnone | ⟨packed, _, hpacked⟩
  · rw [hnone]
    exact .refl
  · rw [hpacked]
    dsimp only
    unfold LowerEnv.packedStrings
    split
    · exact .internStrings p v.strings
    · exact .refl

section

variable {V : Type} {I : Interpretation V} {env : LowerEnv} {Loads : Nat → Nat → ValueType → Prop}

/-- A constant is where it was placed, also in every later pool, in a piece of data of at least
its size. -/
theorem placeConstant_advances (v : Value) (t : ValueType) (s : LowerState) :
    Advances (env.Admits Loads) (placeConstant env v t) s fun place s' =>
      (∀ p, s'.pool.Grows p → constantPlace? env p v t = place) ∧
      ∀ offset, place = some offset → ∃ piece,
        s'.pool.pieces.lookup piece = some offset ∧ t.size env.rules ≤ piece.length := by
  have hreaches := roBytes_reaches env s.pool v t
  have hsize := fun bytes known => @size_le_roBytes env v t s.pool.strings known bytes
  have hstable := fun longer => @roBytes_of_grows env v t s.pool.strings longer
  unfold constantPlace?
  refine modifyPool_advances ?_ ?_
  all_goals
    dsimp only
    generalize env.roBytes v t s.pool.strings = packed at hreaches hsize hstable ⊢
    obtain ⟨bytes, strings⟩ := packed
  · cases bytes with
    | none => exact hreaches
    | some bytes => exact hreaches.addBytes bytes
  · cases bytes with
    | none =>
      refine ⟨fun p hp => ?_, by rintro offset ⟨⟩⟩
      rw [hstable _ hp.strings]
      rfl
    | some bytes =>
      have hadd := DataPool.addBytes_grows { s.pool with strings } bytes
      refine ⟨fun p hp => ?_, ?_⟩
      · rw [hstable _ (hadd.trans hp).strings]
        exact lookup_of_grows hp.pieces (DataPool.lookup_addBytes _ bytes)
      · rintro offset ⟨⟩
        exact ⟨bytes, DataPool.lookup_addBytes _ _, hsize bytes strings rfl⟩

/-- The run is a sequence of steps, and a successful one ends with an instruction whose value
depends on data that is looked up in any later pool. -/
abbrev LowerEnv.ComputesData (env : LowerEnv) (Loads : Nat → Nat → ValueType → Prop)
    (I : Interpretation V) (m : LowerM Nat) (s : LowerState) (x : DataPool → Option V) : Prop :=
  Advances (env.Admits Loads) m s fun id s' =>
    id < s'.body.size ∧ ∀ p, s'.pool.Grows p → valueAt I s'.body id = x p

/-- The instruction of a string holds its handle. -/
theorem lowerString_computes (text : String) (s : LowerState) :
    env.ComputesData Loads I (lowerString env text) s fun p =>
      (stringHandle? env p text).map fun handle => I .string (.int (Int32.ofNat handle)) [] := by
  have hemit : ∀ handle s₁, (∀ p, s₁.pool.Grows p → stringHandle? env p text = some handle) →
      env.ComputesData Loads I (emit .string (.int (Int32.ofNat handle))) s₁ fun p =>
        (stringHandle? env p text).map fun handle => I .string (.int (Int32.ofNat handle)) [] := by
    intro handle s₁ hhandle
    refine (emit_computes (I := I) (o := .int (Int32.ofNat handle)) .nil
      (.silent rfl trivial)).and_steps.mono fun id s₂ h₂ => ⟨h₂.2.1, fun p hp => ?_⟩
    dsimp only
    rw [hhandle p (h₂.1.grows.pool.trans hp)]
    exact h₂.2.2
  unfold lowerString
  by_cases hmap : env.options.mapStringsToIds = true
  · simp only [hmap, if_true]
    refine (modifyPool_advances (.intern text .refl) fun p hp => ?_).bind
      fun handle s₁ _ h₁ => hemit handle s₁ h₁
    rw [stringHandle?, if_pos hmap]
    exact stringId?_of_grows hp.strings (stringId?_internString s.pool.strings text)
  · simp only [hmap, Bool.false_eq_true, if_false]
    refine (noteUsage_advances _ s).bind fun _ s₁ _ _ => ?_
    refine (modifyPool_advances (.addBytes _ .refl) fun p hp => ?_).bind
      fun handle s₂ _ h₂ => hemit handle s₂ h₂
    rw [stringHandle?, if_neg hmap]
    exact lookup_of_grows hp.pieces (DataPool.lookup_addBytes _ _)

/-- The instruction of a compound literal computes its value, if those of its parts do. -/
theorem lowerCompound_computes {v : Value} {t : ValueType} {parts : LowerM (List Nat)}
    {values : DataPool → Option (List V)} {s : LowerState}
    (hparts : ∀ s₁, Advances (env.Admits Loads) parts s₁ fun ids s' => ∀ p, s'.pool.Grows p →
      ∃ xs, values p = some xs ∧ HaveValues I s'.body ids xs) :
    env.ComputesData Loads I (lowerCompound env v t parts) s fun p =>
      compoundValue env I p v t (values p) := by
  refine (placeConstant_advances v t s).bind fun place s₁ _ h₁ => ?_
  unfold compoundValue
  cases place with
  | some offset =>
    obtain ⟨piece, hpiece, hsize⟩ := h₁.2 offset rfl
    refine (emit_noted_computes (I := I) (o := .roLoad offset) .nil rfl trivial
      ⟨piece, hpiece, (ValueType.size_storage env.rules t).symm ▸ hsize⟩).and_steps.mono
      fun id s₂ h₂ => ⟨h₂.2.1, fun p hp => ?_⟩
    dsimp only
    rw [h₁.1 p (h₂.1.grows.pool.trans hp)]
    exact h₂.2.2
  | none =>
    refine (hparts s₁).bind fun ids s₂ h₂ hids => ?_
    obtain ⟨xs, _, hxs⟩ := hids _ (DataPool.Grows.refl _)
    refine (emit_computes (o := .construct ids) hxs (.silent rfl trivial)).and_steps.mono
      fun id s₃ h₃ => ⟨h₃.2.1, fun p hp => ?_⟩
    have hp₂ := h₃.1.grows.pool.trans hp
    obtain ⟨ys, hys, hxs'⟩ := hids p hp₂
    dsimp only
    rw [h₁.1 p (h₂.grows.pool.trans hp₂), hys, hxs'.unique hxs]
    exact h₃.2.2

/-- An instruction without operands. -/
theorem emit_leaf_computes {t : ValueType} {op : Op} {s : LowerState} (hop : op.operands = [])
    (hi : env.Admits Loads s ⟨t.storage, op⟩) :
    env.ComputesData Loads I (emit t op) s fun _ => some (I t.storage op.operator []) :=
  (emit_computes (hop ▸ HaveValues.nil) hi).mono fun _ _ h => ⟨h.1, fun _ _ => h.2⟩

theorem childType_of_partType {t part : ValueType} {index : Nat}
    (h : partType t index = .ok part) : t.childType index = some part := by
  unfold partType at h
  split at h
  · rename_i hchild
    cases h
    exact hchild
  · cases h

/-- The instructions of three floats. -/
theorem emit_floats_computes (x y z : Float32) (s : LowerState) :
    Advances (env.Admits Loads) (do return [← emit .float (.float x), ← emit .float (.float y),
      ← emit .float (.float z)]) s fun ids s' => HaveValues I s'.body ids
        [I .float (.float x) [], I .float (.float y) [], I .float (.float z) []] := by
  refine (emit_float_computes (I := I) x s).bind fun a s₁ _ ha => ?_
  refine (emit_float_computes (I := I) y s₁).bind fun b s₂ h₂ hb => ?_
  refine (emit_float_computes (I := I) z s₂).bind fun c s₃ h₃ hc => .pure ?_
  exact .cons (valueAt_of_extends_some (h₂.grows.trans h₃.grows).body ha.2)
    (.cons (valueAt_of_extends_some h₃.grows.body hb.2) (.cons hc.2 .nil))

mutual

/-- The instructions of a literal compute its value. -/
theorem lowerConstant_computes (v : Value) (t : ValueType) (s : LowerState) :
    env.ComputesData Loads I (lowerConstant env v t) s fun p => constantValue env I p v t := by
  cases v with
  | vector parts | matrix parts | array parts | struct parts =>
    simp only [lowerConstant, constantValue]
    exact lowerCompound_computes fun s₁ => lowerParts_computes parts t 0 s₁
  | color r g b =>
    simp only [lowerConstant, constantValue]
    refine lowerCompound_computes fun s₁ => (Advances.lift _ s₁).bind fun part s₂ _ _ => ?_
    exact (emit_floats_computes r g b s₂).mono fun ids s' h p _ => ⟨_, rfl, h⟩
  | string text =>
    simp only [lowerConstant, constantValue]
    exact lowerString_computes text s
  | _ =>
    simp only [lowerConstant, constantValue]
    exact emit_leaf_computes rfl (.silent rfl trivial)

/-- The instructions of the parts of a literal compute their values. -/
theorem lowerParts_computes (parts : List Value) (t : ValueType) (index : Nat) (s : LowerState) :
    Advances (env.Admits Loads) (lowerParts env parts t index) s fun ids s' =>
      ∀ p, s'.pool.Grows p →
        ∃ xs, partValues env I p parts t index = some xs ∧ HaveValues I s'.body ids xs := by
  cases parts with
  | nil =>
    simp only [lowerParts, partValues]
    exact .pure fun p hp => ⟨[], rfl, HaveValues.nil⟩
  | cons v rest =>
    have hv := fun part s₁ => lowerConstant_computes v part s₁
    have hrest := fun s₁ => lowerParts_computes rest t (index + 1) s₁
    simp only [lowerParts, partValues]
    refine (Advances.lift _ s).bind ?_
    rintro part s₁ - ⟨hpart, rfl⟩
    refine (hv part s₁).bind fun id s₂ _ hid => ?_
    refine (hrest s₂).bind fun ids s₃ h₃ hids => .pure fun p hp => ?_
    obtain ⟨x, hx⟩ := exists_valueAt (I := I) hid.1
    obtain ⟨xs, hxs, hids⟩ := hids p hp
    have hvalue : valueAt I s₂.body id = constantValue env I p v part :=
      hid.2 p (h₃.grows.pool.trans hp)
    refine ⟨x :: xs, ?_, .cons (valueAt_of_extends_some h₃.grows.body hx) hids⟩
    rw [childType_of_partType hpart, Option.bind_some, ← hvalue, hx, hxs]
    rfl

end

theorem lowerConstant_yields (v : Value) (t : ValueType) (s : LowerState) :
    Ensures (lowerConstant env v t) s fun id s' => ∀ p, s'.pool.Grows p →
      Yields I s (constantValue env I p v t) id s' := by
  have hcomputes : env.ComputesData (fun _ _ _ => True) I (lowerConstant env v t) s _ :=
    lowerConstant_computes v t s
  exact hcomputes.ensures.mono fun id s' h p hp => ⟨h.1.grows, h.2.1, h.2.2 p hp⟩

/-- Literals are lowered by steps. -/
theorem lowerConstant_emits (v : Value) (t : ValueType) (s : LowerState) :
    Emits (env.Admits Loads) (lowerConstant env v t) s :=
  (lowerConstant_computes (I := fun _ _ _ => ()) v t s).mono fun _ _ h => h.1

end

end Shading
