import Shading.Proofs.Layout.ReferenceLeaves
import Shading.Proofs.Lowering.SharedData

/-!
# How literals are lowered

A literal may hold strings and resources anywhere inside.  Lowering writes an integer for each of
them, the id of the string or the index of the resource: as an instruction of its own, or into the
read-only data with the rest of the literal.

Main definitions:

- `Encoded` says how a literal stands in a program, with the integers of its references.
- `LowerEnv.Handle` says which integer lowering takes for a reference.

Main results:

- `Encoded.of_longer`: a literal stays where it stands.
- `lowerConstant_encoded`: what lowering writes for a literal.
-/

namespace Shading

/-- The type of the instruction for a reference. -/
def Value.handleType (v : Value) : ValueType :=
  match v.resource? with
  | some _ => .int
  | none => .string

/-- How a literal of a type stands in a program as an instruction, with an integer for each
reference in it: `stands` tells which integers may stand for a reference. -/
inductive Encoded (rules : LayoutRules) (stands : Value → Nat → Prop) (body : Array Instr)
    (data : Bytes) : Value → ValueType → Nat → Prop
  /-- A literal without parts that is no reference. -/
  | plain {v : Value} {type : ValueType} {id : Nat} (hparts : v.children = [])
      (hplain : v.isReference = false) : Encoded rules stands body data v type id
  /-- A reference, written as an integer. -/
  | reference {v : Value} {type : ValueType} {id n : Nat} (href : v.isReference)
      (hstands : stands v n) (hinstr : body[id]? = some ⟨v.handleType, .int (Int32.ofNat n)⟩) :
      Encoded rules stands body data v type id
  /-- A compound literal that is put together from its parts. -/
  | parts {v : Value} {type : ValueType} {id : Nat} {ids : List Nat}
      (hplain : v.isReference = false)
      (hinstr : body[id]? = some ⟨type.storage, .construct ids⟩)
      (hcount : ids.length = v.children.length)
      (htypes : ∀ {k : Nat}, k < v.children.length → (type.childType k).isSome)
      (hparts : ∀ {k : Nat} {part : Value} {partType : ValueType} {id : Nat},
        v.children[k]? = some part → type.childType k = some partType → ids[k]? = some id →
          Encoded rules stands body data part partType id) :
      Encoded rules stands body data v type id
  /-- A compound literal that is read from the read-only data. -/
  | placed {v : Value} {type : ValueType} {id offset start : Nat} {layout : Layout}
      (hinstr : body[id]? = some ⟨type.storage, .roLoad offset⟩)
      (hbuild : Layout.build [⟨"", type, v⟩] rules = .ok layout)
      (hstart : layout.child? 0 Layout.root = some start)
      (hinside : offset + layout.size ≤ data.length)
      (hleaves : ∀ {path : List Nat} {leaf : Value}, v.part? path = some leaf →
        leaf.isReference → ∃ n, stands leaf n ∧
          layout.readLeaf? (data.read offset layout.size) path start = some (leaf.handleData n)) :
      Encoded rules stands body data v type id

namespace Encoded

variable {rules : LayoutRules} {stands : Value → Nat → Prop} {body longer : Array Instr}
  {data more : Bytes} {v : Value} {type : ValueType} {id : Nat}

/-- A literal stays where it stands when instructions and data are appended. -/
theorem of_longer (h : Encoded rules stands body data v type id) (hbody : Extends body longer)
    (hdata : data <+: more) : Encoded rules stands longer more v type id := by
  induction h with
  | plain hparts hplain => exact .plain hparts hplain
  | reference href hstands hinstr => exact .reference href hstands (hbody _ _ hinstr)
  | parts hplain hinstr hcount htypes _ ih =>
    exact .parts hplain (hbody _ _ hinstr) hcount htypes ih
  | placed hinstr hbuild hstart hinside hleaves =>
    refine .placed (hbody _ _ hinstr) hbuild hstart
      (Nat.le_trans hinside hdata.length_le) ?_
    intro path leaf hpart href
    rw [Bytes.read_of_prefix hdata hinside]
    exact hleaves hpart href

/-- The integers stand for the references in the literal by another rule. -/
theorem imp_of_part (h : Encoded rules stands body data v type id) {stands' : Value → Nat → Prop}
    (hstands : ∀ {path : List Nat} {leaf : Value} {n : Nat}, v.part? path = some leaf →
      stands leaf n → stands' leaf n) : Encoded rules stands' body data v type id := by
  induction h with
  | plain hparts hplain => exact .plain hparts hplain
  | reference href hn hinstr => exact .reference href (@hstands [] _ _ rfl hn) hinstr
  | parts hplain hinstr hcount htypes _ ih =>
    refine .parts hplain hinstr hcount htypes fun {k} _ _ _ hpart htype hid => ih hpart htype hid ?_
    intro path leaf n hleaf
    refine @hstands (k :: path) leaf n ?_
    rw [Value.part?, hpart]
    exact hleaf
  | placed hinstr hbuild hstart hinside hleaves =>
    refine .placed hinstr hbuild hstart hinside fun hpart href => ?_
    obtain ⟨n, hn, hread⟩ := hleaves hpart href
    exact ⟨n, hstands hpart hn, hread⟩

/-- The integers stand for the same references by a rule that allows more. -/
theorem mono (h : Encoded rules stands body data v type id) {stands' : Value → Nat → Prop}
    (hstands : ∀ {v : Value} {n : Nat}, stands v n → stands' v n) :
    Encoded rules stands' body data v type id :=
  h.imp_of_part fun _ hn => hstands hn

end Encoded

variable {t : ValueType} {v : Value}

/-! ## Handles -/

/-- The integer that lowering takes for a reference once strings are numbered by a table.  Nothing
is said of strings if they have no ids. -/
def LowerEnv.Handle (env : LowerEnv) (table : List String) (v : Value) (n : Nat) : Prop :=
  env.options.mapStringsToIds ∨ v.resource?.isSome → (env.indexResolver table).handle? v = some n

theorem LowerEnv.handle?_of_grows {env : LowerEnv} {table longer : List String}
    (h : table <+: longer) {n : Nat} (hn : (env.indexResolver table).handle? v = some n) :
    (env.indexResolver longer).handle? v = some n := by
  cases v with
  | string s =>
    unfold IndexResolver.handle? indexResolver at hn ⊢
    dsimp only at hn ⊢
    split at hn
    · rename_i hmap
      rw [if_pos hmap]
      exact stringId?_of_grows h hn
    · cases hn
  | _ => all_goals exact hn

/-! ## Constants -/

variable {env : LowerEnv}

/-- The references of a constant in the read-only data are read back. -/
theorem readLeaf?_of_roBytes {strings known : List String}
    {bytes : Bytes} (h : env.roBytes v t strings = (some bytes, known)) :
    ∃ layout start, Layout.build [⟨"", t, v⟩] env.rules = .ok layout ∧
      layout.child? 0 Layout.root = some start ∧ bytes.length = layout.size ∧
      ∀ {path : List Nat} {leaf : Value}, v.part? path = some leaf → leaf.isReference →
        ∃ n, (env.indexResolver known).handle? leaf = some n ∧
          layout.readLeaf? bytes path start = some (leaf.handleData n) := by
  obtain ⟨layout, start, _, hbuild, hstart, hrun, hnodes, _⟩ := roBytes_eq_some h
  have hlength := (Layout.pack_touches (r := env.indexResolver known) hnodes v
    layout.newBlock).1.length_eq
  rw [hrun] at hlength
  refine ⟨layout, start, hbuild, hstart, hlength.trans List.length_replicate, ?_⟩
  intro path leaf hpart href
  obtain ⟨n, hn, hholds⟩ := Layout.holdsReference_of_pack hnodes hrun hpart href
  exact ⟨n, hn, hholds.readLeaf?⟩

theorem lowerCompound_encoded {parts : LowerM (List Nat)}
    {s : LowerState} (hplain : v.isReference = false) (hs : s.pool.Sound)
    (hparts : ∀ s₁ : LowerState, s₁.pool.Sound → Ensures parts s₁ fun ids s₂ =>
      ids.length = v.children.length ∧
      (∀ {k : Nat}, k < v.children.length → (t.childType k).isSome) ∧
      ∀ {table : List String}, s₂.pool.strings <+: table →
      ∀ {k : Nat} {part : Value} {partType : ValueType} {id : Nat}, v.children[k]? = some part →
        t.childType k = some partType → ids[k]? = some id →
          Encoded env.rules (env.Handle table) s₂.body s₂.pool.bytes part partType id) :
    Ensures (lowerCompound env v t parts) s fun id s' =>
      ∀ {table : List String}, s'.pool.strings <+: table →
        Encoded env.rules (env.Handle table) s'.body s'.pool.bytes v t id := by
  have hplaced : Ensures (placeConstant env v t) s fun place s₁ => s₁.pool.Sound ∧
      ∀ offset, place = some offset → PlacedAt env v t s.pool.strings offset s₁.pool := by
    intro place s₁ hrun
    have hsteps := (@placeConstant_advances env (fun _ _ _ => True) v t s).steps
    rw [hrun] at hsteps
    exact ⟨hsteps.reaches.sound hs, placeConstant_placedAt v t s place s₁ hrun⟩
  refine hplaced.bind fun place s₁ hplace => ?_
  obtain ⟨hsound, hplace⟩ := hplace
  cases place with
  | some offset =>
    have hnote : Ensures (noteUsage .roData) s₁ fun _ s₂ => s₂.pool = s₁.pool := by
      intro u s₂ hrun
      cases hrun
      rfl
    refine hnote.bind fun _ s₂ hpool => (emit_last t (.roLoad offset) s₂).mono ?_
    rintro id s₃ ⟨hlast, hpool'⟩ table htable
    rw [hpool', hpool] at htable ⊢
    obtain ⟨bytes, known, hbytes, hlookup, hknown⟩ := hplace offset rfl
    obtain ⟨layout, start, hbuild, hstart, hlength, hleaves⟩ := readLeaf?_of_roBytes hbytes
    have hread := hsound.read_of_lookup .refl hlookup
    rw [hlength] at hread
    refine .placed hlast hbuild hstart ?_ ?_
    · rw [← hlength]
      exact hsound.inside (mem_of_lookup hlookup)
    · intro path leaf hpart href
      obtain ⟨n, hn, hleaf⟩ := hleaves hpart href
      refine ⟨n, fun _ => LowerEnv.handle?_of_grows (hknown.trans htable) hn, ?_⟩
      rw [hread, hleaf]
  | none =>
    refine (hparts s₁ hsound).bind fun ids s₂ hids => emit_ensures ?_
    obtain ⟨hcount, htypes, hencoded⟩ := hids
    intro table htable
    refine .parts hplain ?_ hcount htypes fun hpart htype hid =>
      (hencoded htable hpart htype hid).of_longer (extends_push _ _) (List.prefix_refl _)
    dsimp only
    rw [Array.getElem?_push_size]

theorem lowerResource_encoded {ref : ResourceRef}
    (href : v.resource? = some ref) (table : List String) (s : LowerState) :
    Ensures (lowerResource env ref) s fun id s' =>
      Encoded env.rules (env.Handle table) s'.body s'.pool.bytes v t id := by
  refine (emit_last .int _ s).mono fun id s' hlast => ?_
  refine .reference (Value.isReference_of_resource? href)
    (fun _ => IndexResolver.handle?_resource href) ?_
  rw [Value.handleType, href]
  exact hlast.1

/-- A string is written as its id, which it keeps in every table that goes on from there. -/
theorem lowerString_encoded (text : String) (t : ValueType) (s : LowerState) :
    Ensures (lowerString env text) s fun id s' => ∀ {table : List String},
      s'.pool.strings <+: table →
        Encoded env.rules (env.Handle table) s'.body s'.pool.bytes (.string text) t id := by
  have hemit : ∀ (handle : Nat) (s₁ : LowerState),
      (env.options.mapStringsToIds → stringId? s₁.pool.strings text = some handle) →
      Ensures (emit .string (.int (Int32.ofNat handle))) s₁ fun id s' => ∀ {table : List String},
        s'.pool.strings <+: table →
          Encoded env.rules (env.Handle table) s'.body s'.pool.bytes (.string text) t id := by
    intro handle s₁ hhandle
    refine (emit_last .string _ s₁).mono ?_
    rintro id s' ⟨hlast, hpool⟩ table htable
    refine .reference rfl ?_ hlast
    rintro (hmap | hnone)
    · rw [hpool] at htable
      simp only [IndexResolver.handle?, LowerEnv.indexResolver, hmap, if_true]
      exact stringId?_of_grows htable (hhandle hmap)
    · cases hnone
  unfold lowerString
  by_cases hmap : env.options.mapStringsToIds
  · rw [if_pos hmap]
    have hintern : Ensures (modifyPool fun pool => pool.intern text) s fun handle s₁ =>
        stringId? s₁.pool.strings text = some handle :=
      modifyPool_ensures (stringId?_internString _ _)
    exact hintern.bind fun handle s₁ hhandle => hemit handle s₁ fun _ => hhandle
  · rw [if_neg hmap]
    intro id s' hrun
    obtain ⟨_, _, _, hrun⟩ := exists_of_run_bind hrun
    obtain ⟨handle, s₁, _, hrun⟩ := exists_of_run_bind hrun
    exact hemit handle s₁ (fun h => absurd h hmap) id s' hrun

/-- A type with a part has all parts before it. -/
theorem ValueType.childType_isSome_of_le {j k : Nat} (hle : k ≤ j)
    (h : (t.childType j).isSome) : (t.childType k).isSome := by
  cases t <;> simp only [ValueType.childType] at h ⊢ <;> grind

mutual

/-- What lowering writes for a literal, with the integers of its references. -/
theorem lowerConstant_encoded (v : Value) (t : ValueType) {s : LowerState} (hs : s.pool.Sound) :
    Ensures (lowerConstant env v t) s fun id s' => ∀ {table : List String},
      s'.pool.strings <+: table →
        Encoded env.rules (env.Handle table) s'.body s'.pool.bytes v t id := by
  cases v with
  | vector parts | matrix parts | array parts | struct parts =>
    rw [lowerConstant]
    refine lowerCompound_encoded rfl hs fun s₁ hs₁ => ?_
    refine (lowerParts_encoded parts t 0 hs₁).mono ?_
    intro ids s₂ hids
    simp only [Nat.zero_add] at hids
    exact hids
  | color x y z =>
    rw [lowerConstant]
    refine lowerCompound_encoded rfl hs fun s₁ _ => ?_
    refine (Ensures.lift _ s₁).bind ?_
    rintro last s₂ ⟨hlast, rfl⟩
    have htype : (t.childType 2).isSome := by
      unfold partType at hlast
      split at hlast
      · rename_i hchild
        rw [hchild]
        rfl
      · cases hlast
    -- The parts are numbers, so nothing is asked of their instructions.
    have hplain : ∀ part ∈ (Value.color x y z).children,
        part.children = [] ∧ part.isReference = false := by
      simp [Value.children, Value.isReference, Value.resource?]
    intro ids s₃ hrun
    refine ⟨?_, ?_, ?_⟩
    · cases hrun
      rfl
    · intro k hk
      exact ValueType.childType_isSome_of_le (Nat.le_of_lt_succ hk) htype
    · intro table _ k part partType id hpart _ _
      obtain ⟨hparts, hnone⟩ := hplain part (List.mem_of_getElem? hpart)
      exact .plain hparts hnone
  | string text =>
    rw [lowerConstant]
    exact lowerString_encoded text t s
  | texture name shape | lightProfile name | bsdfMeasurement name =>
    rw [lowerConstant]
    intro id s' hrun table _
    exact lowerResource_encoded rfl table s id s' hrun
  | _ => all_goals exact fun id s' _ table _ => .plain rfl rfl

theorem lowerParts_encoded (parts : List Value) (t : ValueType) (index : Nat) {s : LowerState}
    (hs : s.pool.Sound) :
    Ensures (lowerParts env parts t index) s fun ids s' => ids.length = parts.length ∧
      (∀ {k : Nat}, k < parts.length → (t.childType (index + k)).isSome) ∧
      ∀ {table : List String}, s'.pool.strings <+: table →
      ∀ {k : Nat} {part : Value} {partType : ValueType} {id : Nat}, parts[k]? = some part →
        t.childType (index + k) = some partType → ids[k]? = some id →
          Encoded env.rules (env.Handle table) s'.body s'.pool.bytes part partType id := by
  cases parts with
  | nil =>
    rw [lowerParts]
    refine .pure ⟨rfl, ?_, ?_⟩
    · intro k hk
      cases hk
    · intro table _ k part partType id hpart
      cases hpart
  | cons v rest =>
    rw [lowerParts]
    refine (Ensures.lift _ s).bind ?_
    rintro vType s₁ ⟨hvType, rfl⟩
    have hfirst : Ensures (lowerConstant env v vType) s₁ fun id s₂ => s₂.pool.Sound ∧
        ∀ {table : List String}, s₂.pool.strings <+: table →
          Encoded env.rules (env.Handle table) s₂.body s₂.pool.bytes v vType id := by
      intro id s₂ hrun
      exact ⟨(lowerConstant_reaches hrun).sound hs, lowerConstant_encoded v vType hs id s₂ hrun⟩
    refine hfirst.bind fun first s₂ hfirst => ?_
    obtain ⟨hs₂, hfirst⟩ := hfirst
    have hrest : Ensures (lowerParts env rest t (index + 1)) s₂ fun ids s₃ =>
        s₂.pool.Reaches s₃.pool ∧ Extends s₂.body s₃.body ∧ ids.length = rest.length ∧
        (∀ {k : Nat}, k < rest.length → (t.childType (index + 1 + k)).isSome) ∧
        ∀ {table : List String}, s₃.pool.strings <+: table →
        ∀ {k : Nat} {part : Value} {partType : ValueType} {id : Nat}, rest[k]? = some part →
          t.childType (index + 1 + k) = some partType → ids[k]? = some id →
            Encoded env.rules (env.Handle table) s₃.body s₃.pool.bytes part partType id := by
      intro ids s₃ hrun
      have hsteps := (@lowerParts_computes Unit (fun _ _ _ => ()) env (fun _ _ _ => True) rest t
        (index + 1) s₂).steps
      rw [hrun] at hsteps
      exact ⟨hsteps.reaches, hsteps.grows.body,
        lowerParts_encoded rest t (index + 1) hs₂ ids s₃ hrun⟩
    refine hrest.bind fun ids s₃ hrest => .pure ?_
    obtain ⟨hreaches, hbody, hcount, htypes, hencoded⟩ := hrest
    have hvType' : t.childType index = some vType := by
      unfold partType at hvType
      split at hvType
      · rename_i hchild
        cases hvType
        exact hchild
      · cases hvType
    refine ⟨congrArg (· + 1) hcount, ?_, ?_⟩
    · intro k hk
      cases k with
      | zero =>
        rw [Nat.add_zero, hvType']
        rfl
      | succ k =>
        rw [Nat.add_comm k 1, ← Nat.add_assoc]
        exact htypes (Nat.lt_of_succ_lt_succ hk)
    · intro table htable k part partType id hpart htype hid
      cases k with
      | zero =>
        cases hpart
        cases hid
        rw [Nat.add_zero, hvType'] at htype
        cases htype
        exact (hfirst (hreaches.grows.strings.trans htable)).of_longer hbody hreaches.bytes
      | succ k =>
        rw [Nat.add_comm k 1, ← Nat.add_assoc] at htype
        exact hencoded htable hpart htype hid

end

end Shading
