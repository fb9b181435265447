import Mathlib
import Shading.Proofs.Lowering.Constant

/-!
# Constants in the read-only data

A compound constant that is placed in the read-only data is read back part by part, and
gives what its parts give when it is put together from them.

Main definitions:

- `ValueType.readAt?` reads a value of a type from bytes.
- `LowerEnv.inline` is the setting in which no constant is placed in the read-only data.

Main results:

- Theorem `readAt?_of_stored`: a literal that is stored is read back.
- Theorem `readAt?_of_roBytes`: so is a constant in every later state of the data.
- Theorem `lowerConstant_roLoad`: what the read of a constant refers to.
-/

namespace Shading

open List

variable {V : Type}

/-! ## Reading values -/

/-- The value that the bytes of a leaf stand for. -/
def LeafData.value (I : Interpretation V) : LeafData → V
  | .bool b => I .bool (.bool b) []
  | .int n | .enum n => I .int (.int n) []
  | .float bits => I .float (.float (Float32.ofBits bits)) []
  | .double bits => I .double (.double (Float.ofBits bits)) []
  | .string id => I .string (.int id.toInt32) []
  | .resource _ index => I .int (.int index.toInt32) []

section

variable (I : Interpretation V) (rules : LayoutRules) (data : Bytes)

namespace ValueType

/-- Reads a value without parts. -/
def leafAt? (t : ValueType) (offset : Nat) : Option V :=
  (LeafData.decode? t.kind (data.read offset (t.size rules))).map (LeafData.value I)

/-- Reads a vector. -/
def vectorAt? (element : ScalarType) (count offset : Nat) : Option V :=
  ((childOffsets rules (.vector element count)).mapM fun o =>
    leafAt? I rules data (ofScalar element) (offset + o)).map (I (.vector element count) .construct)

mutual

/-- Reads a value of a type at an offset: values without parts are decoded, and others are
put together from their parts. -/
def readAt? : ValueType → (offset : Nat) → Option V
  | .vector element count, offset => vectorAt? I rules data element count offset
  | .color, offset =>
    ((childOffsets rules .color).mapM fun o => leafAt? I rules data .float (offset + o)).map
      (I .color .construct)
  | .matrix columns rows, offset =>
    ((childOffsets rules (.matrix columns rows)).mapM fun o =>
      vectorAt? I rules data .float rows (offset + o)).map (I (.matrix columns rows) .construct)
  | .array element count, offset =>
    ((childOffsets rules (.array element count)).mapM fun o => readAt? element (offset + o)).map
      (I (storage (.array element count)) .construct)
  | .struct name fields, offset =>
    (readFields? fields (childOffsets rules (.struct name fields)) offset).map
      (I (storage (.struct name fields)) .construct)
  | t, offset => leafAt? I rules data t offset

/-- Reads the fields of a structure; their offsets count from a base. -/
def readFields? : List (String × ValueType) → List Nat → (base : Nat) → Option (List V)
  | [], _, _ => some []
  | _ :: _, [], _ => none
  | (_, t) :: rest, o :: offsets, base =>
    (readAt? t (base + o)).bind fun x => (readFields? rest offsets base).map fun xs => x :: xs

end

end ValueType

end

/-- The setting in which every constant is put together from its parts. -/
def LowerEnv.inline (env : LowerEnv) : LowerEnv :=
  { env with useRoSegment := false }

/-! ## Stored literals -/

theorem Stored.part {r : IndexResolver} {data : Bytes} {v part : Value} {kind : ValueKind}
    {size offset k o : Nat} {children : List (Nat × Shape)} {s : Shape}
    (h : Stored r data v (.node kind size children) offset)
    (hpart : v.children[k]? = some part) (hk : children[k]? = some (o, s)) :
    Stored r data part s (offset + o) := by
  cases h with
  | leaf hv _ =>
    rw [Value.children_eq_nil hv] at hpart
    cases hpart
  | parts _ _ hparts => exact hparts hpart hk

/-- References are resolved alike in bytes and in instructions. -/
structure LowerEnv.Resolves (env : LowerEnv) (pool : DataPool) (r : IndexResolver) : Prop where
  resource : ∀ ref, r.resourceIndex ref = ((env.resources.find? ref).map (·.index)).getD 0
  string : ∀ {text : String} {id : Nat}, r.stringIndex text = some id →
    stringHandle? env pool text = some id

section

variable {I : Interpretation V} {env : LowerEnv} {pool : DataPool} {r : IndexResolver}
  {data : Bytes}

theorem compoundValue_inline (v : Value) (t : ValueType) (parts : Option (List V)) :
    compoundValue env.inline I pool v t parts = parts.map (I t.storage .construct) := by
  have hplace : constantPlace? env.inline pool v t = none := by
    simp [constantPlace?, LowerEnv.roBytes, LowerEnv.inline]
  simp only [compoundValue, hplace]

/-- The bytes of a literal without parts stand for its value. -/
theorem constantValue_of_ofValue? (hresolves : env.Resolves pool r) {v : Value} {d : LeafData}
    (hd : LeafData.ofValue? r v = some d) (t : ValueType) :
    constantValue env.inline I pool v t = some (d.value I) := by
  cases v with
  | bool b | int n | enum n =>
    cases hd
    rfl
  | float x =>
    cases hd
    simp only [constantValue, LeafData.value, Float32.ofBits_toBits]
  | double x =>
    cases hd
    simp only [constantValue, LeafData.value, Float.ofBits_toBits]
  | string text =>
    obtain ⟨id, hid, rfl⟩ := Option.map_eq_some_iff.mp hd
    have hhandle : stringHandle? env.inline pool text = some id := hresolves.string hid
    simp only [constantValue, hhandle, LeafData.value, Option.map_some,
      UInt32.toInt32_ofNat']
  | texture name shape | lightProfile name | bsdfMeasurement name =>
    cases hd
    simp only [constantValue, resourceValue, LeafData.value, hresolves.resource,
      UInt32.toInt32_ofNat']
    rfl
  | vector | matrix | color | array | struct => cases hd

theorem leafAt?_of_stored (hresolves : env.Resolves pool r) {v : Value} {t : ValueType}
    {children : List (Nat × Shape)} {offset : Nat} (hv : v.kind.isCompound = false)
    (h : Stored r data v (.node t.kind (t.size env.rules) children) offset) (t' : ValueType) :
    ∃ x, t.leafAt? I env.rules data offset = some x ∧
      constantValue env.inline I pool v t' = some x := by
  generalize hkind : t.kind = kind at h
  cases h with
  | leaf _ hbytes =>
    obtain ⟨d, hd, hdecode⟩ := decode?_leafBytes hbytes
    refine ⟨d.value I, ?_, constantValue_of_ofValue? hresolves hd t'⟩
    rw [ValueType.leafAt?, hkind, hdecode]
    rfl
  | parts hcompound _ _ =>
    rw [hv] at hcompound
    cases hcompound

/-- Parts of one type that are read one by one. -/
theorem partValues_of_reads {read : Nat → Option V} {t part : ValueType} {parts : List Value}
    (offsets : List Nat) (index : Nat) (hcount : parts.length = offsets.length)
    (htype : ∀ k < parts.length, t.childType (index + k) = some part)
    (hreads : ∀ {k o : Nat} {v : Value}, parts[k]? = some v → offsets[k]? = some o →
      ∃ x, read o = some x ∧ constantValue env.inline I pool v part = some x) :
    ∃ xs, offsets.mapM read = some xs ∧
      partValues env.inline I pool parts t index = some xs := by
  induction parts generalizing offsets index with
  | nil =>
    cases length_eq_zero_iff.mp hcount.symm
    exact ⟨[], rfl, rfl⟩
  | cons v parts ih =>
    obtain _ | ⟨o, offsets⟩ := offsets
    · cases hcount
    obtain ⟨x, hread, hvalue⟩ := hreads (k := 0) rfl rfl
    have htype' : ∀ k < parts.length, t.childType (index + 1 + k) = some part := by
      intro k hk
      rw [Nat.add_assoc, Nat.add_comm 1 k]
      exact htype (k + 1) (Nat.succ_lt_succ hk)
    obtain ⟨xs, hxs, hvalues⟩ := ih offsets (index + 1) (Nat.succ.inj hcount) htype'
      fun hk ho => hreads (getElem?_cons_succ.trans hk) (getElem?_cons_succ.trans ho)
    have hhead := htype 0 (Nat.succ_pos _)
    rw [Nat.add_zero] at hhead
    refine ⟨x :: xs, ?_, ?_⟩
    · rw [mapM_cons, hread, hxs]
      rfl
    · simp only [partValues, hhead, hvalue, hvalues, Option.bind_some, Option.map_some]

/-- A literal whose parts have one shape is put together from what is read in its place. -/
theorem compoundValue_of_stored {read : Nat → Option V} {t part : ValueType} {v : Value}
    {kind : ValueKind} {s : Shape} {size offset : Nat} {offsets : List Nat}
    (hcount : v.children.length = offsets.length)
    (htype : ∀ k < v.children.length, t.childType k = some part)
    (hread : ∀ p ∈ v.children, ∀ o, Stored r data p s o →
      ∃ x, read o = some x ∧ constantValue env.inline I pool p part = some x)
    (h : Stored r data v (.node kind size (offsets.map fun o => (o, s))) offset) :
    ∃ x, (offsets.mapM fun o => read (offset + o)).map (I t.storage .construct) = some x ∧
      compoundValue env.inline I pool v t (partValues env.inline I pool v.children t 0) =
        some x := by
  have htype' : ∀ k < v.children.length, t.childType (0 + k) = some part := by
    simpa using htype
  have hreads : ∀ {k o : Nat} {p : Value}, v.children[k]? = some p → offsets[k]? = some o →
      ∃ x, read (offset + o) = some x ∧ constantValue env.inline I pool p part = some x := by
    intro k o p hp ho
    refine hread p (mem_of_getElem? hp) (offset + o) (h.part hp ?_)
    rw [getElem?_map, ho]
    rfl
  obtain ⟨xs, hxs, hvalues⟩ := partValues_of_reads offsets 0 hcount htype' hreads
  refine ⟨I t.storage .construct xs, ?_, ?_⟩
  · rw [hxs]
    rfl
  · rw [compoundValue_inline, hvalues]
    rfl

mutual

/-- A literal that is stored is read back as what its parts make. -/
theorem readAt?_of_stored (hresolves : env.Resolves pool r) (v : Value) (t : ValueType)
    (hv : v.conformsTo t = true) {offset : Nat} (h : Stored r data v (t.shape env.rules) offset) :
    ∃ x, t.readAt? I env.rules data offset = some x ∧
      constantValue env.inline I pool v t = some x := by
  cases v with
  | vector parts =>
    cases t with
    | vector element count =>
      rw [Value.conformsTo, Bool.and_eq_true, beq_iff_eq] at hv
      have hread : ∀ p ∈ parts, ∀ o, Stored r data p (.node (ValueType.ofScalar element).kind
          (env.rules.scalarExtent element).size []) o →
          ∃ x, (ValueType.ofScalar element).leafAt? I env.rules data o = some x ∧
            constantValue env.inline I pool p (.ofScalar element) = some x := by
        intro p hp o hstored
        have hp' := readAll?_of_stored hresolves parts (.ofScalar element) hv.2 p hp o
          (by cases element <;> exact hstored)
        cases element <;> exact hp'
      rw [ValueType.readAt?, constantValue]
      exact compoundValue_of_stored (t := .vector element count)
        (by simp [Value.children, hv.1, ValueType.childOffsets])
        (fun k hk => if_pos (hv.1 ▸ hk)) hread h
    | _ => cases hv
  | matrix parts =>
    cases t with
    | matrix columns rows =>
      rw [Value.conformsTo, Bool.and_eq_true, beq_iff_eq] at hv
      have hread := readAll?_of_stored hresolves parts
        (.vector .float rows) hv.2
      rw [ValueType.readAt?, constantValue]
      exact compoundValue_of_stored (t := .matrix columns rows)
        (by simp [Value.children, hv.1, ValueType.childOffsets])
        (fun k hk => if_pos (hv.1 ▸ hk)) hread h
    | _ => cases hv
  | array parts =>
    cases t with
    | array element count =>
      rw [Value.conformsTo, Bool.and_eq_true, beq_iff_eq] at hv
      rw [ValueType.readAt?, constantValue]
      exact compoundValue_of_stored (t := .array element count)
        (by simp [Value.children, hv.1, ValueType.childOffsets])
        (fun k hk => if_pos (hv.1 ▸ hk))
        (readAll?_of_stored hresolves parts element hv.2) h
    | _ => cases hv
  | struct parts =>
    cases t with
    | struct name fields =>
      rw [Value.conformsTo] at hv
      rw [ValueType.shape_struct] at h
      have hoffsets : ValueType.childOffsets env.rules (.struct name fields) =
          (pack ((fields.map Prod.snd).map (ValueType.extent env.rules))).offsets := by
        rw [ValueType.childOffsets, ValueType.fieldExtents_eq_map, map_map]
        rfl
      obtain ⟨xs, hxs, hvalues⟩ := readFields?_of_stored hresolves parts fields hv
        (ValueType.childOffsets env.rules (.struct name fields)) offset 0
        (t := .struct name fields)
        (by
          rw [hoffsets, (ValueType.pack_types_orderly env.rules _).length_eq]
          simp)
        (fun {k part} hk => by
          rw [Nat.zero_add, ValueType.childType, ← hk, getElem?_map])
        (fun {k o v part} hpart ho hk => h.part hpart
          (getElem?_zip_eq_some.mpr ⟨hoffsets ▸ ho, by rw [getElem?_map, hk]; rfl⟩))
      refine ⟨I (ValueType.storage (.struct name fields)) .construct xs, ?_, ?_⟩
      · rw [ValueType.readAt?, hxs]
        rfl
      · rw [constantValue, compoundValue_inline, hvalues]
        rfl
    | _ => cases hv
  | color x y z =>
    cases t with
    | color =>
      have hread : ∀ p ∈ (Value.color x y z).children, ∀ o,
          Stored r data p (.node .float 4 []) o →
          ∃ x, ValueType.float.leafAt? I env.rules data o = some x ∧
            constantValue env.inline I pool p .float = some x := by
        intro p hp o hstored
        have hleaf : p.kind.isCompound = false := by
          simp only [Value.children, mem_cons, not_mem_nil, or_false] at hp
          rcases hp with rfl | rfl | rfl <;> rfl
        exact leafAt?_of_stored (t := .float) hresolves hleaf hstored .float
      rw [ValueType.readAt?, constantValue]
      exact compoundValue_of_stored (t := .color) rfl (fun k hk => if_pos hk) hread h
    | _ => cases hv
  | _ => cases t <;> first | exact leafAt?_of_stored hresolves rfl h _ | cases hv

theorem readAll?_of_stored (hresolves : env.Resolves pool r) (parts : List Value)
    (t : ValueType) (hparts : Value.allConformTo parts t = true) :
    ∀ part ∈ parts, ∀ offset : Nat, Stored r data part (t.shape env.rules) offset →
      ∃ x, t.readAt? I env.rules data offset = some x ∧
        constantValue env.inline I pool part t = some x := by
  cases parts with
  | nil =>
    intro part hpart
    cases hpart
  | cons v rest =>
    rw [Value.allConformTo, Bool.and_eq_true] at hparts
    intro part hpart offset h
    rcases mem_cons.mp hpart with heq | hpart
    · rw [heq] at h ⊢
      exact readAt?_of_stored hresolves v t hparts.1 h
    · exact readAll?_of_stored hresolves rest t hparts.2 part hpart offset h

theorem readFields?_of_stored (hresolves : env.Resolves pool r) (parts : List Value)
    (fields : List (String × ValueType)) (hparts : Value.eachConformsTo parts fields = true)
    (offsets : List Nat) (base index : Nat) {t : ValueType}
    (hcount : offsets.length = fields.length)
    (htype : ∀ {k : Nat} {part : ValueType}, (fields.map Prod.snd)[k]? = some part →
      t.childType (index + k) = some part)
    (h : ∀ {k o : Nat} {v : Value} {part : ValueType}, parts[k]? = some v →
      offsets[k]? = some o → (fields.map Prod.snd)[k]? = some part →
      Stored r data v (part.shape env.rules) (base + o)) :
    ∃ xs, ValueType.readFields? I env.rules data fields offsets base = some xs ∧
      partValues env.inline I pool parts t index = some xs := by
  cases parts with
  | nil =>
    cases fields with
    | nil => exact ⟨[], by rw [ValueType.readFields?], by rw [partValues]⟩
    | cons f fields => cases hparts
  | cons v rest =>
    obtain _ | ⟨⟨name, part⟩, fields⟩ := fields
    · cases hparts
    obtain _ | ⟨o, offsets⟩ := offsets
    · cases hcount
    rw [Value.eachConformsTo, Bool.and_eq_true] at hparts
    obtain ⟨x, hread, hvalue⟩ := readAt?_of_stored hresolves v part hparts.1
      (h (k := 0) rfl rfl rfl)
    have htype' : ∀ {k : Nat} {part : ValueType}, (fields.map Prod.snd)[k]? = some part →
        t.childType (index + 1 + k) = some part := by
      intro k part hk
      rw [Nat.add_assoc, Nat.add_comm 1 k]
      exact htype (k := k + 1) hk
    obtain ⟨xs, hxs, hvalues⟩ := readFields?_of_stored hresolves rest fields hparts.2
      offsets base (index + 1) (Nat.succ.inj hcount) htype'
      fun {k _ _ _} hv ho hpart => h (k := k + 1) hv ho hpart
    have hhead := htype (k := 0) rfl
    rw [Nat.add_zero] at hhead
    refine ⟨x :: xs, ?_, ?_⟩
    · simp only [ValueType.readFields?, hread, hxs, Option.bind_some, Option.map_some]
    · simp only [partValues, hhead, hvalue, hvalues, Option.bind_some, Option.map_some]

end

end

/-! ## Placed constants -/

/-- What is stored in a piece of data is stored wherever the piece is. -/
theorem Stored.of_piece {r : IndexResolver} {piece data : Bytes} {v : Value} {s : Shape}
    {offset place : Nat} (h : Stored r piece v s offset) (hs : s.Fits)
    (hinside : offset + s.size ≤ piece.length) (hpiece : data.read place piece.length = piece) :
    Stored r data v s (place + offset) := by
  induction h with
  | @leaf v size offset hv hbytes =>
    simp only [Shape.size_node] at hinside
    refine .leaf hv (hbytes.trans (congrArg Except.ok ?_))
    refine ext_getElem? fun i => ?_
    conv_lhs => rw [← hpiece]
    simp only [Bytes.read, getElem?_take, getElem?_drop]
    split
    · rw [if_pos (by omega), Nat.add_assoc]
    · rfl
  | @parts v size offset children hv hcount _ ih =>
    simp only [Shape.size_node] at hinside
    cases hs with
    | node apart fits =>
      refine .parts hv hcount fun {k o part s} hpart hk => ?_
      have hend := apart.inside hk
      rw [Nat.add_assoc]
      exact ih hpart hk (fits hk) (by omega)

section

variable {I : Interpretation V} {env : LowerEnv} {v : Value} {t : ValueType} {bytes : Bytes}
  {strings known : List String}

/-- The bytes of a constant store it. -/
theorem stored_of_roBytes (h : env.roBytes v t strings = (some bytes, known))
    (hv : v.conformsTo t = true) (hnarrow : env.rules = .gpuStorage → t.narrow = true) :
    Stored (env.indexResolver known) bytes v (t.shape env.rules) 0 := by
  obtain ⟨layout, address, _, _, _, hrun, hnodes, hroom⟩ := roBytes_eq_some h
  have hstrings := Layout.resolves_of_pack v hrun
  have hroom' : 0 + (t.shape env.rules).size ≤ layout.newBlock.length := by
    rw [Nat.zero_add, ValueType.shape_size]
    exact hroom
  obtain ⟨block, hblock, _, hstored⟩ := (encodable_of_conformsTo v t hv hstrings).packsAs
    (ValueType.shape_fits t hnarrow) hnodes hroom'
  rw [hrun] at hblock
  cases hblock
  exact hstored

/-- References in placed constants are those of every later pool. -/
theorem resolves_of_grows {pool : DataPool} (hknown : known <+: pool.strings) :
    env.Resolves pool (env.indexResolver known) where
  resource := fun _ => rfl
  string := by
    intro text id hid
    unfold LowerEnv.indexResolver at hid
    unfold stringHandle?
    dsimp only at hid
    split at hid
    · rename_i hmap
      rw [if_pos hmap]
      exact stringId?_of_grows hknown hid
    · cases hid

/-- A constant is read back in every later state of the data; `pool` is where references
are looked up. -/
theorem readAt?_of_roBytes {p q pool : DataPool} {offset : Nat} (hp : p.Sound)
    (hpq : p.Reaches q) (h : env.roBytes v t strings = (some bytes, known))
    (hplace : p.pieces.lookup bytes = some offset) (hknown : known <+: pool.strings)
    (hv : v.conformsTo t = true) (hnarrow : env.rules = .gpuStorage → t.narrow = true) :
    ∃ x, t.readAt? I env.rules q.bytes offset = some x ∧
      constantValue env.inline I pool v t = some x := by
  have hinside : 0 + (t.shape env.rules).size ≤ bytes.length := by
    rw [Nat.zero_add, ValueType.shape_size]
    exact size_le_roBytes h
  have hstored := (stored_of_roBytes h hv hnarrow).of_piece (ValueType.shape_fits t hnarrow)
    hinside (hp.read_of_lookup hpq hplace)
  exact readAt?_of_stored (resolves_of_grows hknown) v t hv hstored

end

/-! ## What lowering emits for a constant -/

theorem emit_last (t : ValueType) (op : Op) (s : LowerState) :
    Ensures (emit t op) s fun id s' =>
      s'.body[id]? = some ⟨t.storage, op⟩ ∧ s'.pool = s.pool := by
  refine emit_ensures ⟨?_, rfl⟩
  dsimp only
  rw [Array.getElem?_push_size]

section

variable {env : LowerEnv}

/-- A constant that is read from the read-only data was placed there. -/
def PlacedAt (env : LowerEnv) (v : Value) (t : ValueType) (strings : List String)
    (offset : Nat) (pool : DataPool) : Prop :=
  ∃ bytes known, env.roBytes v t strings = (some bytes, known) ∧
    pool.pieces.lookup bytes = some offset ∧ known <+: pool.strings

theorem placeConstant_placedAt (v : Value) (t : ValueType) (s : LowerState) :
    Ensures (placeConstant env v t) s fun place s' =>
      ∀ offset, place = some offset → PlacedAt env v t s.pool.strings offset s'.pool := by
  refine modifyPool_ensures ?_
  intro offset hplace
  unfold PlacedAt
  dsimp only at hplace ⊢
  generalize env.roBytes v t s.pool.strings = packed at hplace ⊢
  obtain ⟨bytes, known⟩ := packed
  cases bytes with
  | none => cases hplace
  | some bytes =>
    cases hplace
    have hgrows := DataPool.addBytes_grows { s.pool with strings := known } bytes
    exact ⟨bytes, known, rfl, DataPool.lookup_addBytes _ _, hgrows.strings⟩

theorem lowerCompound_placedAt {v : Value} {t : ValueType} {parts : LowerM (List Nat)}
    (s : LowerState) :
    Ensures (lowerCompound env v t parts) s fun id s' => ∀ type offset,
      s'.body[id]? = some ⟨type, .roLoad offset⟩ →
        PlacedAt env v t s.pool.strings offset s'.pool := by
  refine (placeConstant_placedAt v t s).bind fun place s₁ hplace => ?_
  cases place with
  | some offset =>
    have hnote : Ensures (noteUsage .roData) s₁ fun _ s₂ => s₂.pool = s₁.pool := by
      intro u s₂ hrun
      cases hrun
      rfl
    refine hnote.bind fun _ s₂ hpool => (emit_last t (.roLoad offset) s₂).mono ?_
    rintro id s₃ ⟨hlast, hpool'⟩ type offset' hload
    rw [hlast] at hload
    cases hload
    rw [hpool', hpool]
    exact hplace offset rfl
  | none =>
    refine Ensures.bind (fun ids s₂ _ => trivial) fun ids s₂ _ =>
      (emit_last t (.construct ids) s₂).mono ?_
    rintro id s₃ ⟨hlast, _⟩ type offset' hload
    rw [hlast] at hload
    cases hload

/-- A literal that is lowered to a read of the read-only data was placed there. -/
theorem lowerConstant_placedAt (v : Value) (t : ValueType) (s : LowerState) :
    Ensures (lowerConstant env v t) s fun id s' => ∀ type offset,
      s'.body[id]? = some ⟨type, .roLoad offset⟩ →
        PlacedAt env v t s.pool.strings offset s'.pool := by
  have hleaf : ∀ {t' : ValueType} {op : Op} (s₁ : LowerState), (∀ offset, op ≠ .roLoad offset) →
      Ensures (emit t' op) s₁ fun id s' => ∀ type offset,
        s'.body[id]? = some ⟨type, .roLoad offset⟩ →
          PlacedAt env v t s.pool.strings offset s'.pool := by
    intro t' op s₁ hop
    refine (emit_last t' op s₁).mono ?_
    rintro id s' ⟨hlast, _⟩ type offset hload
    rw [hlast] at hload
    cases hload
    exact absurd rfl (hop offset)
  cases v with
  | vector parts | matrix parts | array parts | struct parts | color r g b =>
    rw [lowerConstant]
    exact lowerCompound_placedAt s
  | string text =>
    rw [lowerConstant]
    unfold lowerString
    split
    · exact Ensures.bind (fun _ _ _ => trivial) fun handle s₁ _ => hleaf s₁ (fun _ => nofun)
    · refine Ensures.bind (fun _ _ _ => trivial) fun _ s₁ _ => ?_
      exact Ensures.bind (fun _ _ _ => trivial) fun handle s₂ _ => hleaf s₂ (fun _ => nofun)
  | _ =>
    rw [lowerConstant]
    exact hleaf s fun _ => nofun

/-- Without ids, the handle of a string is where its bytes and a closing zero are. -/
theorem lowerString_last (hmap : env.options.mapStringsToIds = false) (text : String)
    (s : LowerState) :
    Ensures (lowerString env text) s fun id s' => ∃ handle,
      s'.body[id]? = some ⟨.string, .int (Int32.ofNat handle)⟩ ∧
        s'.pool.pieces.lookup (Bytes.ofText text ++ [0]) = some handle := by
  unfold lowerString
  simp only [hmap, Bool.false_eq_true, if_false]
  refine Ensures.bind (fun _ _ _ => trivial) fun _ s₁ _ => ?_
  have hplace : Ensures (modifyPool fun pool => pool.addBytes (Bytes.ofText text ++ [0])) s₁
      fun handle s₂ => s₂.pool.pieces.lookup (Bytes.ofText text ++ [0]) = some handle :=
    modifyPool_ensures (DataPool.lookup_addBytes s₁.pool _)
  refine hplace.bind fun handle s₂ hplace =>
    (emit_last .string (.int (Int32.ofNat handle)) s₂).mono ?_
  rintro id s₃ ⟨hlast, hpool⟩
  exact ⟨handle, hlast, hpool ▸ hplace⟩

end

/-! ## Lowering of constants succeeds -/

/-- A computation that always succeeds. -/
def Succeeds {α : Type} (m : LowerM α) : Prop :=
  ∀ s, ∃ a s', m.run s = (.ok a, s')

namespace Succeeds

variable {α β : Type}

theorem bind {m : LowerM α} {f : α → LowerM β} (hm : Succeeds m) (hf : ∀ a, Succeeds (f a)) :
    Succeeds (m >>= f) := by
  intro s
  obtain ⟨a, s', hrun⟩ := hm s
  obtain ⟨b, s'', hrun'⟩ := hf a s'
  exact ⟨b, s'', (run_bind_of_ok hrun).trans hrun'⟩

theorem pure (a : α) : Succeeds (Pure.pure a) :=
  fun s => ⟨a, s, rfl⟩

theorem emit (t : ValueType) (op : Op) : Succeeds (Shading.emit t op) :=
  fun _ => ⟨_, _, rfl⟩

theorem lift_bind {a : α} {f : α → LowerM β} (hf : Succeeds (f a)) :
    Succeeds ((liftM (Except.ok a : Except LowerError α) : LowerM α) >>= f) :=
  hf

end Succeeds

theorem Value.conformsTo_of_allConformTo {parts : List Value} {t : ValueType}
    (h : allConformTo parts t = true) {k : Nat} {part : Value} (hpart : parts[k]? = some part) :
    part.conformsTo t = true := by
  induction parts generalizing k with
  | nil => cases hpart
  | cons v rest ih =>
    rw [allConformTo, Bool.and_eq_true] at h
    cases k with
    | zero =>
      cases hpart
      exact h.1
    | succ k => exact ih h.2 hpart

theorem Value.conformsTo_of_eachConformsTo {parts : List Value}
    {fields : List (String × ValueType)} (h : eachConformsTo parts fields = true) {k : Nat}
    {part : Value} (hpart : parts[k]? = some part) :
    ∃ t, fields[k]?.map (·.2) = some t ∧ part.conformsTo t = true := by
  induction parts generalizing fields k with
  | nil => cases hpart
  | cons v rest ih =>
    obtain _ | ⟨f, fields⟩ := fields
    · cases h
    rw [eachConformsTo, Bool.and_eq_true] at h
    cases k with
    | zero =>
      cases hpart
      exact ⟨f.2, rfl, h.1⟩
    | succ k => exact ih h.2 hpart

/-- The parts of a literal of a type have the types of the parts. -/
theorem Value.conformsTo_child {v part : Value} {t : ValueType} (hv : v.conformsTo t = true)
    {k : Nat} (hpart : v.children[k]? = some part) :
    ∃ u, t.childType k = some u ∧ part.conformsTo u = true := by
  have hlt := (List.getElem?_eq_some_iff.mp hpart).1
  cases v with
  | vector parts | matrix parts | array parts =>
    cases t <;> try cases hv
    rw [conformsTo, Bool.and_eq_true, beq_iff_eq] at hv
    exact ⟨_, if_pos (hv.1 ▸ hlt), conformsTo_of_allConformTo hv.2 hpart⟩
  | struct parts =>
    cases t <;> try cases hv
    rw [conformsTo] at hv
    exact conformsTo_of_eachConformsTo hv hpart
  | color r g b =>
    cases t <;> try cases hv
    refine ⟨.float, if_pos hlt, ?_⟩
    have hmem := mem_of_getElem? hpart
    simp only [children, mem_cons, not_mem_nil, or_false] at hmem
    rcases hmem with rfl | rfl | rfl <;> rfl
  | _ => cases hpart

section

variable (env : LowerEnv)

theorem lowerString_succeeds (text : String) : Succeeds (lowerString env text) := by
  unfold lowerString
  split
  · exact .bind (fun _ => ⟨_, _, rfl⟩) fun handle => .emit _ _
  · refine .bind (fun _ => ⟨_, _, rfl⟩) fun _ => ?_
    exact .bind (fun _ => ⟨_, _, rfl⟩) fun handle => .emit _ _

theorem lowerCompound_succeeds {v : Value} {t : ValueType} {parts : LowerM (List Nat)}
    (hparts : Succeeds parts) : Succeeds (lowerCompound env v t parts) := by
  refine Succeeds.bind (fun _ => ⟨_, _, rfl⟩) fun place => ?_
  cases place with
  | some offset => exact Succeeds.bind (fun _ => ⟨_, _, rfl⟩) fun _ => .emit _ _
  | none => exact hparts.bind fun ids => .emit _ _

mutual

/-- Lowering a literal of a type succeeds. -/
theorem lowerConstant_succeeds (v : Value) (t : ValueType) (hv : v.conformsTo t = true) :
    Succeeds (lowerConstant env v t) := by
  cases v with
  | vector parts | matrix parts | array parts | struct parts =>
    rw [lowerConstant]
    refine lowerCompound_succeeds env (lowerParts_succeeds parts t 0 fun {k part} hpart => ?_)
    rw [Nat.zero_add]
    exact Value.conformsTo_child hv hpart
  | color r g b =>
    obtain ⟨part, hpart, _⟩ := Value.conformsTo_child (k := 2) hv rfl
    rw [lowerConstant, partType, hpart]
    refine lowerCompound_succeeds env (.lift_bind ?_)
    exact .bind (.emit _ _) fun _ => .bind (.emit _ _) fun _ => .bind (.emit _ _) fun _ =>
      .pure _
  | string text =>
    rw [lowerConstant]
    exact lowerString_succeeds env text
  | _ =>
    rw [lowerConstant]
    exact .emit _ _

theorem lowerParts_succeeds (parts : List Value) (t : ValueType) (index : Nat)
    (hparts : ∀ {k : Nat} {part : Value}, parts[k]? = some part →
      ∃ u, t.childType (index + k) = some u ∧ part.conformsTo u = true) :
    Succeeds (lowerParts env parts t index) := by
  cases parts with
  | nil =>
    rw [lowerParts]
    exact .pure _
  | cons v rest =>
    obtain ⟨u, hu, hv⟩ := hparts (k := 0) rfl
    have hhead : partType t index = .ok u := by
      rw [partType, ← Nat.add_zero index, hu]
    have hrest : ∀ {k : Nat} {part : Value}, rest[k]? = some part →
        ∃ u, t.childType (index + 1 + k) = some u ∧ part.conformsTo u = true := by
      intro k part hpart
      rw [Nat.add_assoc, Nat.add_comm 1 k]
      exact hparts (k := k + 1) hpart
    have htail := lowerParts_succeeds rest t (index + 1) hrest
    have hfirst := lowerConstant_succeeds v u hv
    rw [lowerParts, hhead]
    exact .lift_bind (hfirst.bind fun part => htail.bind fun parts => .pure _)

end

end

end Shading
