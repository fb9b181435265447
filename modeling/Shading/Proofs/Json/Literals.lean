import Shading.Proofs.Code.Content
import Shading.Proofs.Json.Codec
import Shading.Value.Json

/-!
# Types and literals are read back

A type stands in JSON under its tag, and what is inside it is kept until the tag is known.  A
literal has its kind in front, so its parts are read as freely as itself.  Both are read back in
either way of reading, at any depth.

Main definitions:

- `ValueType.fits` says that the sizes inside a type fit their widths.
- `Value.ReadsBack` says that the numbers inside a literal are read back.

Main results:

- `ValueType.ofJsonIn?_toJson`: a type is read back.
- `Value.ofJsonIn?_toJson`: a literal is read back.
- `Value.isReadable_toJson`: the members of a literal's text may be kept before they are read.
-/

namespace Shading

open List

variable {t : ValueType} {v : Value}

open Json

/-! ## Types -/

namespace ValueType

mutual

/-- Whether the sizes inside a type fit the widths at which they are read. -/
def fits : ValueType → Bool
  | .vector _ size => decide (size < 2 ^ 8)
  | .matrix columns rows => decide (columns < 2 ^ 8) && decide (rows < 2 ^ 8)
  | .array element size => element.fits && decide (size < 2 ^ 32)
  | .struct _ fields => fieldsFit fields
  | _ => true

/-- Whether the sizes inside the types of some fields fit. -/
def fieldsFit : List (String × ValueType) → Bool
  | [] => true
  | (_, t) :: rest => t.fits && fieldsFit rest

end

theorem isReadable_of_payload (h : haveReadable t.payload) : t.toJson.isReadable := by
  simp only [toJson_eq, isReadable, haveReadable, ofNamed, h, Bool.and_self]

mutual

/-- The JSON of a type may be kept. -/
theorem haveReadable_payload (t : ValueType) (h : t.fits) : haveReadable t.payload := by
  cases t with
  | array element size =>
    simp only [fits, Bool.and_eq_true, decide_eq_true_eq] at h
    have helement := isReadable_of_payload (haveReadable_payload element h.1)
    simp only [payload, haveReadable, helement,
      isReadable_ofNat (show size < 2 ^ 64 by omega), Bool.and_self]
  | struct name fields =>
    simp only [fits] at h
    simp only [payload, haveReadable, isReadable, areReadable_fieldsToJson fields h,
      Bool.and_self]
  | vector element size =>
    simp only [fits, decide_eq_true_eq] at h
    simp only [payload, haveReadable, isReadable, ofNamed,
      isReadable_ofNat (show size < 2 ^ 64 by omega), Bool.and_self]
  | matrix columns rows =>
    simp only [fits, Bool.and_eq_true, decide_eq_true_eq] at h
    simp only [payload, haveReadable, isReadable_ofNat (show columns < 2 ^ 64 by omega),
      isReadable_ofNat (show rows < 2 ^ 64 by omega), Bool.and_self]
  | _ => all_goals rfl

theorem areReadable_fieldsToJson (fields : List (String × ValueType)) (h : fieldsFit fields) :
    areReadable (fieldsToJson fields) := by
  cases fields with
  | nil => rfl
  | cons f rest =>
    obtain ⟨name, t⟩ := f
    simp only [fieldsFit, Bool.and_eq_true] at h
    have htype := isReadable_of_payload (haveReadable_payload t h.1)
    simp only [fieldsToJson, areReadable, isReadable, haveReadable, htype,
      areReadable_fieldsToJson rest h.2, Bool.and_self]

end

theorem kindOfTag?_ofNamed (reading : Reading) (kind : ValueKind) :
    kindOfTag? reading (.ofNamed kind) = some kind := by
  cases reading <;> exact LawfulNamed.ofName?_name kind

theorem depthMembers_payload_lt (t : ValueType) : depthMembers t.payload < t.toJson.depth := by
  rw [toJson_eq, depth, depthMembers]
  omega

/-- A type is read back if its payload is. -/
theorem ofJsonWithin_of_payload (h : t.fits) (reading : Reading) {levels : Nat}
    (hlevels : t.toJson.depth ≤ levels) (hpayload : ∀ k, depthMembers t.payload ≤ k →
      payloadOfJson? (ofJsonWithin .kept k) t.kind (.object t.payload) = some t) :
    ofJsonWithin reading levels t.toJson = some t := by
  have hdepth := t.depthMembers_payload_lt
  obtain ⟨levels, rfl⟩ : ∃ k, levels = k + 1 := ⟨levels - 1, by omega⟩
  rw [toJson_eq, ofJsonWithin, tagged?_object t.not_mem_payload (haveReadable_payload t h)]
  simp only [Option.bind_eq_bind, Option.bind_some, kindOfTag?_ofNamed]
  exact hpayload levels (by omega)

mutual

/-- What is written of a type beside the name of its kind is read back. -/
theorem payloadOfJson?_payload (t : ValueType) (h : t.fits) {levels : Nat}
    (hlevels : depthMembers t.payload ≤ levels) :
    payloadOfJson? (ofJsonWithin .kept levels) t.kind (.object t.payload) = some t := by
  cases t with
  | array element size =>
    simp only [fits, Bool.and_eq_true, decide_eq_true_eq] at h
    simp only [payload, depthMembers, Nat.max_le] at hlevels
    have helement := ofJsonWithin_of_payload h.1 .kept hlevels.1
      fun k => payloadOfJson?_payload element h.1
    simp [payloadOfJson?, payload, kind, record?_object,
      helement, nat32?_ofNat h.2]
  | struct name fields =>
    simp only [fits] at h
    simp only [payload, depthMembers, depth, Nat.max_le] at hlevels
    have hfields := mapM_fieldsToJson fields h (show _ ≤ levels + 1 by omega)
    simp [payloadOfJson?, payload, kind, record?_object,
      string?, list?, array?, hfields]
  | vector element size =>
    simp only [fits, decide_eq_true_eq] at h
    simp [payloadOfJson?, payload, kind, record?_object,
      enumIn?_ofNamed, nat8?_ofNat h]
  | matrix columns rows =>
    simp only [fits, Bool.and_eq_true, decide_eq_true_eq] at h
    simp [payloadOfJson?, payload, kind, record?_object,
      nat8?_ofNat h.1, nat8?_ofNat h.2]
  | enum name =>
    simp [payloadOfJson?, payload, kind, record?_object,
      string?]
  | texture shape =>
    simp [payloadOfJson?, payload, kind, record?_object,
      enumIn?_ofNamed]
  | _ => all_goals rfl

theorem mapM_fieldsToJson (fields : List (String × ValueType)) (h : fieldsFit fields)
    {levels : Nat} (hlevels : depthItems (fieldsToJson fields) ≤ levels + 1) :
    (fieldsToJson fields).mapM (fieldOfJson? (ofJsonWithin .kept levels)) = some fields := by
  cases fields with
  | nil => rfl
  | cons f rest =>
    obtain ⟨name, t⟩ := f
    simp only [fieldsFit, Bool.and_eq_true] at h
    simp only [fieldsToJson, depthItems, depth, depthMembers, Nat.max_le] at hlevels
    have htype := ofJsonWithin_of_payload h.1 .kept (show t.toJson.depth ≤ levels by omega)
      fun k => payloadOfJson?_payload t h.1
    have hrest := mapM_fieldsToJson rest h.2 hlevels.2
    simp [fieldsToJson, mapM_cons, fieldOfJson?, record?_object,
      string?, htype, hrest]

end

/-- A type is read back, straight off a document or out of a kept payload. -/
theorem ofJsonIn?_toJson (h : t.fits) (reading : Reading) : ofJsonIn? reading t.toJson = some t :=
  ofJsonWithin_of_payload h reading (Nat.le_succ _) fun _ => payloadOfJson?_payload t h

theorem ofJson?_toJson (h : t.fits) : ofJson? t.toJson = some t :=
  ofJsonIn?_toJson h .direct

end ValueType

/-! ## Literals -/

namespace Value

/-- The numbers of a literal are read back, those of its parts apart. -/
def ReadsBackHere : Value → Prop
  | .float x => Float32.ReadsBack x
  | .double x => Float.finite x
  | .color r g b => Float32.ReadsBack r ∧ Float32.ReadsBack g ∧ Float32.ReadsBack b
  | _ => True

/-- All numbers inside a literal are read back. -/
def ReadsBack (v : Value) : Prop :=
  ∀ part ∈ v.flatten, part.ReadsBackHere

/-- The numbers of 32 bits of a literal, those of its parts apart. -/
def singlesHere : Value → List Float32
  | .float x => [x]
  | .color r g b => [r, g, b]
  | _ => []

/-- The numbers of 32 bits inside a literal. -/
def singles (v : Value) : List Float32 :=
  v.flatten.flatMap singlesHere

theorem readsBack_of_isFinite (hfinite : v.isFinite)
    (hsingles : ∀ x ∈ v.singles, Float32.ReadsBack x) : v.ReadsBack := by
  intro part hpart
  have hhere := all_eq_true.mp hfinite part hpart
  have hread : ∀ x ∈ part.singlesHere, Float32.ReadsBack x :=
    fun x hx => hsingles x (mem_flatMap.mpr ⟨part, hpart, hx⟩)
  cases part with
  | float x => exact hread x mem_cons_self
  | double x => exact hhere
  | color r g b =>
    simp only [singlesHere, forall_mem_cons] at hread
    exact ⟨hread.1, hread.2.1, hread.2.2.1⟩
  | _ => all_goals trivial

theorem ReadsBack.head {rest : List Value}
    (h : ∀ part ∈ flattenAll (v :: rest), part.ReadsBackHere) : v.ReadsBack :=
  fun part hpart => h part (mem_append_left _ hpart)

theorem ReadsBack.tail {rest : List Value}
    (h : ∀ part ∈ flattenAll (v :: rest), part.ReadsBackHere) :
    ∀ part ∈ flattenAll rest, part.ReadsBackHere :=
  fun part hpart => h part (mem_append_right _ hpart)

theorem isReadable_nameToJson (name : Option String) : (nameToJson name).isReadable := by
  cases name <;> rfl

theorem isReadable_of_content (h : (v.contentToJson .ofFloat32).isReadable) :
    (v.toJson .ofFloat32).isReadable := by
  simp only [toJson_eq_wrap, wrap, isReadable, haveReadable, ofNamed, h, Bool.and_self]

theorem isReadable_ofFloat32 {x : Float32} (h : Float32.ReadsBack x) :
    (Json.ofFloat32 x).isReadable := by
  apply isReadable_of_float32?
  rw [h]
  rfl

mutual

/-- The JSON of a literal may be kept. -/
theorem isReadable_contentToJson (v : Value) (h : v.ReadsBack) :
    (v.contentToJson .ofFloat32).isReadable := by
  cases v with
  | float x => exact isReadable_ofFloat32 (h _ mem_cons_self)
  | double x =>
    apply isReadable_of_float?
    rw [contentToJson, float?_ofFloat (h _ mem_cons_self)]
    rfl
  | int n | enum n => all_goals exact isReadable_ofInt32 n
  | vector parts | matrix parts | array parts | struct parts =>
    rw [contentToJson, isReadable]
    exact areReadable_partsToJson parts fun part hpart => h part (mem_cons_of_mem _ hpart)
  | color r g b =>
    obtain ⟨hr, hg, hb⟩ := h _ mem_cons_self
    simp only [contentToJson, isReadable, areReadable, isReadable_ofFloat32 hr,
      isReadable_ofFloat32 hg, isReadable_ofFloat32 hb, Bool.and_self]
  | texture name shape | lightProfile name | bsdfMeasurement name =>
    simp only [contentToJson, isReadable, haveReadable, isReadable_nameToJson, ofNamed,
      Bool.and_self]
  | bool b | string s => all_goals rfl

theorem areReadable_partsToJson (parts : List Value)
    (h : ∀ part ∈ flattenAll parts, part.ReadsBackHere) :
    areReadable (partsToJson .ofFloat32 parts) := by
  cases parts with
  | nil => rfl
  | cons v rest =>
    have hhead := isReadable_of_content (isReadable_contentToJson v (.head h))
    simp only [partsToJson, areReadable, hhead, areReadable_partsToJson rest (ReadsBack.tail h),
      Bool.and_self]

end

theorem isReadable_toJson (h : v.ReadsBack) : (v.toJson .ofFloat32).isReadable :=
  isReadable_of_content (isReadable_contentToJson v h)

theorem depth_contentToJson_lt (v : Value) :
    (v.contentToJson .ofFloat32).depth < (v.toJson .ofFloat32).depth := by
  rw [toJson_eq_wrap, wrap, depth, depthMembers, depthMembers, depthMembers]
  omega

/-- A literal is read back if its content is. -/
theorem ofJsonWithin_of_content (reading : Reading) {levels : Nat}
    (hlevels : (v.toJson .ofFloat32).depth ≤ levels)
    (hcontent : ∀ k, (v.contentToJson .ofFloat32).depth ≤ k →
      contentOfJson? reading (ofJsonWithin reading k) v.kind (v.contentToJson .ofFloat32) =
        some v) : ofJsonWithin reading levels (v.toJson .ofFloat32) = some v := by
  have hdepth := v.depth_contentToJson_lt
  obtain ⟨levels, rfl⟩ : ∃ k, levels = k + 1 := ⟨levels - 1, by omega⟩
  have hread := hcontent levels (by omega)
  rw [toJson_eq_wrap, wrap, ofJsonWithin]
  simp [record?_object, enumIn?_ofNamed, Record.startsWith, hread]

theorem nameOfRecord?_cons (name : Option String) (rest : List (String × Json)) :
    nameOfRecord? ⟨("name", nameToJson name) :: rest, true⟩ = some name := by
  rw [nameOfRecord?, Record.option?_of_find? Record.find?_head]
  exact option?_ofOption (fun _ _ => rfl) (fun _ => nofun)

mutual

/-- What is written of a literal beside its kind is read back. -/
theorem contentOfJson?_contentToJson (v : Value) (h : v.ReadsBack) (reading : Reading)
    {levels : Nat} (hlevels : (v.contentToJson .ofFloat32).depth ≤ levels + 1) :
    contentOfJson? reading (ofJsonWithin reading levels) v.kind (v.contentToJson .ofFloat32) =
      some v := by
  cases v with
  | float x =>
    have hread : float32? (ofFloat32 x) = some x := h _ mem_cons_self
    simp [contentOfJson?, contentToJson, kind, hread]
  | double x => simp [contentOfJson?, contentToJson, kind, float?_ofFloat (h _ mem_cons_self)]
  | int n | enum n => all_goals simp [contentOfJson?, contentToJson, kind, int32?_ofInt32]
  | vector parts | matrix parts | array parts | struct parts =>
    rw [contentToJson, depth] at hlevels
    have hparts := mapM_partsToJson parts
      (fun part hpart => h part (mem_cons_of_mem _ hpart)) reading
      (Nat.le_of_succ_le_succ hlevels)
    simp [contentOfJson?, contentToJson, kind, list?, array?, hparts]
  | color r g b =>
    obtain ⟨hr, hg, hb⟩ := h _ mem_cons_self
    have hlist : list? float32? (ofList ofFloat32 [r, g, b]) = some [r, g, b] := by
      apply list?_ofList
      intro x hx
      simp only [mem_cons, not_mem_nil, or_false] at hx
      rcases hx with rfl | rfl | rfl
      · exact hr
      · exact hg
      · exact hb
    simp only [ofList, map_cons, map_nil] at hlist
    simp [contentOfJson?, contentToJson, kind, colorOfJson?, hlist]
  | texture name shape | lightProfile name | bsdfMeasurement name =>
    simp [contentOfJson?, contentToJson, kind, keyed?, record?_object, nameOfRecord?_cons,
      enumIn?_ofNamed]
  | bool b | string s => all_goals rfl

theorem mapM_partsToJson (parts : List Value)
    (h : ∀ part ∈ flattenAll parts, part.ReadsBackHere) (reading : Reading) {levels : Nat}
    (hlevels : depthItems (partsToJson .ofFloat32 parts) ≤ levels) :
    (partsToJson .ofFloat32 parts).mapM (ofJsonWithin reading levels) = some parts := by
  cases parts with
  | nil => rfl
  | cons v rest =>
    rw [partsToJson, depthItems, Nat.max_le] at hlevels
    have hhead := ofJsonWithin_of_content reading hlevels.1 fun k hk =>
      contentOfJson?_contentToJson v (.head h) reading (Nat.le_succ_of_le hk)
    have hrest := mapM_partsToJson rest (ReadsBack.tail h) reading hlevels.2
    simp [partsToJson, mapM_cons, hhead, hrest]

end

/-- A literal is read back, straight off a document or out of a kept payload. -/
theorem ofJsonIn?_toJson (h : v.ReadsBack) (reading : Reading) :
    ofJsonIn? reading (v.toJson .ofFloat32) = some v :=
  ofJsonWithin_of_content reading (Nat.le_succ _) fun _ hk =>
    contentOfJson?_contentToJson v h reading (Nat.le_succ_of_le hk)

end Value

end Shading
