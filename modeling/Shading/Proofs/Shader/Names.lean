import Mathlib.Data.List.Infix
import Shading.Shader.Expression

/-!
# Names of types in shader text

Naming a type may define structures.  It only adds to the structures named so far, and
none of the new ones is larger than the type.  So a structure that is defined after its
fields is the only one of its type, and every type that was named keeps its name.

Main definitions:

- `ValueType.expressible` says that the shading language has values of a type.
- `ShaderNames.Grows` says that names were added and none was taken away.
- `ShaderNames.HasName` says how a type is called.

Main results:

- Theorem `shaderType_named`: a type that gets a name keeps it.
- Theorem `shaderType_names`: a type that can be expressed gets a name.
-/

namespace Shading

open List

namespace ShaderM

variable {α β : Type}

theorem run_bind_of_ok {m : ShaderM α} {f : α → ShaderM β} {s mid : ShaderNames} {a : α}
    (h : m.run s = .ok (a, mid)) : (m >>= f).run s = (f a).run mid := by
  rw [StateT.run_bind, h]
  rfl

/-- What a sequence of two steps did when it succeeded. -/
theorem run_bind_eq_ok {m : ShaderM α} {f : α → ShaderM β} {s t : ShaderNames} {b : β}
    (h : (m >>= f).run s = .ok (b, t)) :
    ∃ a mid, m.run s = .ok (a, mid) ∧ (f a).run mid = .ok (b, t) := by
  rw [StateT.run_bind] at h
  cases hm : m.run s with
  | error e =>
    rw [hm] at h
    cases h
  | ok p =>
    rw [hm] at h
    exact ⟨p.1, p.2, rfl, h⟩

theorem run_liftM_of_ok {x : Except ShaderError α} {a : α} (h : x = .ok a) (s : ShaderNames) :
    (liftM x : ShaderM α).run s = .ok (a, s) := by
  rw [h]
  rfl

end ShaderM

/-! ## Types that can be expressed -/

namespace ValueType

mutual

/-- Whether the shading language has values of a type: there are no numbers of double
precision and no distributions in it, and its vectors and matrices have two to four
components in every direction. -/
def expressible : ValueType → Bool
  | .double | .bsdf | .edf | .vdf => false
  | .vector element size => element != .double && isVectorSize size
  | .matrix columns rows => isVectorSize columns && isVectorSize rows
  | .array element _ => element.expressible
  | .struct _ fields => fieldsExpressible fields
  | _ => true

/-- Whether the types of all fields can be expressed. -/
def fieldsExpressible : List (String × ValueType) → Bool
  | [] => true
  | (_, t) :: rest => t.expressible && fieldsExpressible rest

end

mutual

theorem distribution?_of_expressible {t : ValueType} (h : t.expressible = true) :
    t.distribution? = none := by
  cases t with
  | array element size => exact distribution?_of_expressible (t := element) h
  | struct name fields =>
    have hfields : fieldsExpressible fields = true := h
    exact distributionField?_of_expressible hfields
  | bsdf | edf | vdf => cases h
  | _ => rfl

theorem distributionField?_of_expressible {fields : List (String × ValueType)}
    (h : fieldsExpressible fields = true) : distributionField? fields = none := by
  cases fields with
  | nil => rfl
  | cons f rest =>
    obtain ⟨name, t⟩ := f
    obtain ⟨ht, hrest⟩ := Bool.and_eq_true_iff.mp h
    rw [distributionField?, distribution?_of_expressible ht]
    exact distributionField?_of_expressible hrest

end

mutual

theorem expressible_storage (t : ValueType) : t.storage.expressible = t.expressible := by
  cases t with
  | array element size => exact expressible_storage element
  | struct name fields => exact fieldsExpressible_storageFields fields
  | _ => rfl

theorem fieldsExpressible_storageFields (fields : List (String × ValueType)) :
    fieldsExpressible (storageFields fields) = fieldsExpressible fields := by
  cases fields with
  | nil => rfl
  | cons f rest =>
    rw [storageFields, fieldsExpressible, fieldsExpressible, expressible_storage f.2,
      fieldsExpressible_storageFields rest]

end

end ValueType

/-! ## Naming -/

namespace ShaderNames

/-- Structures were named after those that had a name; runtime functions are the same. -/
structure Grows (names later : ShaderNames) : Prop where
  structs : names.structs <+: later.structs
  stubs : later.stubs = names.stubs

variable {names mid later : ShaderNames}

theorem Grows.refl (names : ShaderNames) : names.Grows names :=
  ⟨prefix_refl _, rfl⟩

theorem Grows.trans (h : names.Grows mid) (h' : mid.Grows later) : names.Grows later :=
  ⟨h.structs.trans h'.structs, h'.stubs.trans h.stubs⟩

/-- A structure that has a name keeps it. -/
theorem Grows.find? (h : names.Grows later) {p : ShaderStruct → Bool} {s : ShaderStruct}
    (hs : names.structs.find? p = some s) : later.structs.find? p = some s := by
  obtain ⟨new, hnew⟩ := h.structs
  rw [← hnew, find?_append, hs]
  rfl

end ShaderNames

/-- A type has a name: here and wherever more is named, it is called so, and nothing has to
be named for it. -/
def ShaderNames.HasName (names : ShaderNames) (t : ValueType) (name : String) : Prop :=
  ∀ later, names.Grows later → (shaderType t).run later = .ok (name, later)

theorem ShaderNames.HasName.mono {names later : ShaderNames} {t : ValueType} {name : String}
    (h : names.HasName t name) (hgrows : names.Grows later) : later.HasName t name :=
  fun last hlast => h last (hgrows.trans hlast)

/-- The line of a numbered field: its name, and the name of its type. -/
def ShaderNames.IsMember (names : ShaderNames) (field : (String × ValueType) × Nat)
    (line : String) : Prop :=
  ∃ type, names.HasName field.1.2 type ∧
    line = "    " ++ fieldName field.2 field.1.1 ++ ": " ++ type ++ ","

/-- The definition of a structure with the given lines. -/
def structText (name : String) (members : List String) : String :=
  s!"struct {name} \x7b\n" ++ String.intercalate "\n" members ++ "\n\x7d\n\n"

/-- A structure is defined when its type is new and the types of its fields have names. -/
structure ShaderNames.Defines (names : ShaderNames) (s : ShaderStruct) : Prop where
  new : ∀ other ∈ names.structs, other.type ≠ s.type
  written : ∃ name fields members, s.type = .struct name fields ∧
    s.name = freshName ("S_" ++ sanitize name) (names.structs.map (·.name)) ∧
    Forall₂ names.IsMember fields.zipIdx members ∧
    s.definition = structText s.name members

/-- Structures were defined one after another, none of them larger than a bound. -/
inductive ShaderNames.NewWithin (bound : Nat) (names : ShaderNames) : ShaderNames → Prop
  | refl : NewWithin bound names names
  | define {mid : ShaderNames} {s : ShaderStruct} (h : NewWithin bound names mid)
    (hs : mid.Defines s) (hsize : sizeOf s.type ≤ bound) :
    NewWithin bound names { mid with structs := mid.structs ++ [s] }

namespace ShaderNames.NewWithin

variable {names mid later : ShaderNames} {bound bound' : Nat}

theorem grows (h : names.NewWithin bound later) : names.Grows later := by
  induction h with
  | refl => exact .refl names
  | define _ _ _ ih => exact ih.trans ⟨prefix_append _ _, rfl⟩

theorem size_le (h : names.NewWithin bound later) :
    ∀ s ∈ later.structs, s ∈ names.structs ∨ sizeOf s.type ≤ bound := by
  induction h with
  | refl => exact fun s hs => Or.inl hs
  | define _ _ hsize ih =>
    intro s hs
    rcases mem_append.mp hs with hs | hs
    · exact ih s hs
    · exact Or.inr (mem_singleton.mp hs ▸ hsize)

theorem mono (h : names.NewWithin bound later) (hle : bound ≤ bound') :
    names.NewWithin bound' later := by
  induction h with
  | refl => exact .refl
  | define _ hs hsize ih => exact ih.define hs (Nat.le_trans hsize hle)

theorem trans (h : names.NewWithin bound mid) (h' : mid.NewWithin bound later) :
    names.NewWithin bound later := by
  induction h' with
  | refl => exact h
  | define _ hs hsize ih => exact ih.define hs hsize

end ShaderNames.NewWithin

variable {name : String}

/-- A type is given a name. -/
structure NamedBy (t : ValueType) (names : ShaderNames) (name : String) (later : ShaderNames) :
    Prop where
  run : (shaderType t).run names = .ok (name, later)
  new : names.NewWithin (sizeOf t) later
  hasName : later.HasName t name

theorem NamedBy.grows {t : ValueType} {names later : ShaderNames}
    (h : NamedBy t names name later) : names.Grows later :=
  h.new.grows

/-- A type whose name does not depend on the structures. -/
theorem namedBy_of_pure {t : ValueType}
    (h : ∀ names, (shaderType t).run names = .ok (name, names)) (names : ShaderNames) :
    NamedBy t names name names :=
  ⟨h names, .refl, fun last _ => h last⟩

theorem vectorName_ok {element : ScalarType} {size : Nat} (helement : element ≠ .double)
    (hsize : isVectorSize size = true) : ∃ name, vectorName element size = .ok name := by
  unfold vectorName
  rw [if_pos hsize]
  cases element with
  | double => exact absurd rfl helement
  | _ => exact ⟨_, rfl⟩

/-- A structure that is defined is the one of its type. -/
theorem ShaderNames.Defines.find? {names : ShaderNames} {s : ShaderStruct} (h : names.Defines s) :
    (names.structs ++ [s]).find? (fun other => decide (other.type = s.type)) = some s := by
  have hnone : names.structs.find? (fun other => decide (other.type = s.type)) = none :=
    find?_eq_none.mpr fun other hother => by simpa using h.new other hother
  rw [find?_append, hnone, Option.none_or, find?_cons_of_pos (by simp)]

theorem nameStruct_run (type : ValueType) (name : String) (members : List String)
    (names : ShaderNames) : ∃ s, (nameStruct type name members).run names =
      .ok (s.name, { names with structs := names.structs ++ [s] }) ∧ s.type = type ∧
      s.name = freshName ("S_" ++ sanitize name) (names.structs.map (·.name)) ∧
      s.definition = structText s.name members :=
  ⟨⟨type, _, structText _ members⟩, rfl, rfl, rfl, rfl⟩

/-- A structure with a name is not defined again. -/
theorem shaderType_of_find? {fields : List (String × ValueType)}
    {names : ShaderNames} {s : ShaderStruct}
    (hs : names.structs.find? (fun s => decide (s.type = .struct name fields)) = some s) :
    (shaderType (.struct name fields)).run names = .ok (s.name, names) := by
  have hget : (get : ShaderM ShaderNames).run names = .ok (names, names) := rfl
  rw [shaderType, ShaderM.run_bind_of_ok hget, hs]
  rfl

mutual

/-- What naming a type does. -/
theorem shaderType_named (t : ValueType) {names later : ShaderNames} {name : String}
    (h : (shaderType t).run names = .ok (name, later)) : NamedBy t names name later := by
  cases t with
  | vector element size =>
    rw [shaderType] at h
    obtain ⟨x, hx⟩ : ∃ x, vectorName element size = x := ⟨_, rfl⟩
    rw [hx] at h
    cases x <;> cases h
    refine namedBy_of_pure (fun names => ?_) _
    rw [shaderType, hx]
    rfl
  | matrix columns rows =>
    by_cases hsize : (isVectorSize columns && isVectorSize rows) = true
    · have hrun : ∀ names, (shaderType (.matrix columns rows)).run names
          = .ok (s!"mat{columns}x{rows}<f32>", names) := by
        intro names
        rw [shaderType, if_pos hsize]
        rfl
      cases (hrun names).symm.trans h
      exact namedBy_of_pure hrun _
    · rw [shaderType, if_neg hsize] at h
      cases h
  | array element size =>
    rw [shaderType] at h
    obtain ⟨e, mid, helement, h⟩ := ShaderM.run_bind_eq_ok h
    cases h
    have helement := shaderType_named element helement
    refine ⟨?_, helement.new.mono ?_, fun last hlast => ?_⟩
    · rw [shaderType, ShaderM.run_bind_of_ok helement.run]
      rfl
    · rw [ValueType.array.sizeOf_spec]
      omega
    · rw [shaderType, ShaderM.run_bind_of_ok (helement.hasName last hlast)]
      rfl
  | struct name fields =>
    cases hfound : names.structs.find? fun s => decide (s.type = .struct name fields) with
    | some s =>
      cases (shaderType_of_find? hfound).symm.trans h
      exact ⟨h, .refl, fun last hlast => shaderType_of_find? (hlast.find? hfound)⟩
    | none =>
      have hrun := h
      rw [shaderType] at h
      obtain ⟨_, _, hget, h⟩ := ShaderM.run_bind_eq_ok h
      cases hget
      rw [hfound] at h
      obtain ⟨lines, mid, hlines, h⟩ := ShaderM.run_bind_eq_ok h
      obtain ⟨hnew, hmembers⟩ := shaderFields_named fields 0 hlines
      -- The fields name structures smaller than this one.
      have hother : ∀ s ∈ mid.structs, s.type ≠ .struct name fields := by
        intro s hs htype
        rcases hnew.size_le s hs with hs | hsize
        · exact absurd (decide_eq_true htype) (find?_eq_none.mp hfound s hs)
        · rw [htype, ValueType.struct.sizeOf_spec] at hsize
          omega
      obtain ⟨s, hs, htype, hname, hdefinition⟩ :=
        nameStruct_run (.struct name fields) name lines mid
      cases hs.symm.trans h
      rw [← htype] at hother
      have hdefines : mid.Defines s := ⟨hother, name, fields, lines, htype, hname, hmembers,
        hdefinition⟩
      have hfind := hdefines.find?
      rw [htype] at hfind
      refine ⟨hrun, (hnew.mono ?_).define hdefines (Nat.le_of_eq (congrArg sizeOf htype)),
        fun last hlast => shaderType_of_find? (hlast.find? hfind)⟩
      rw [ValueType.struct.sizeOf_spec]
      omega
  | double | bsdf | edf | vdf => cases h
  | _ =>
    cases h
    exact namedBy_of_pure (fun _ => rfl) _

/-- What writing the lines of the fields of a structure does. -/
theorem shaderFields_named (fields : List (String × ValueType)) (index : Nat)
    {names later : ShaderNames} {lines : List String}
    (h : (shaderFields index fields).run names = .ok (lines, later)) :
    names.NewWithin (sizeOf fields) later ∧
      Forall₂ later.IsMember (fields.zipIdx index) lines := by
  cases fields with
  | nil =>
    cases h
    exact ⟨.refl, .nil⟩
  | cons f rest =>
    obtain ⟨name, t⟩ := f
    rw [shaderFields] at h
    obtain ⟨type, mid, htype, h⟩ := ShaderM.run_bind_eq_ok h
    obtain ⟨lines', later', hrest, h⟩ := ShaderM.run_bind_eq_ok h
    cases h
    have hnamed := shaderType_named t htype
    obtain ⟨hnew, hmembers⟩ := shaderFields_named rest (index + 1) hrest
    refine ⟨(hnamed.new.mono ?_).trans (hnew.mono ?_),
      .cons ⟨type, hnamed.hasName.mono hnew.grows, rfl⟩ hmembers⟩
    · rw [List.cons.sizeOf_spec, Prod.mk.sizeOf_spec]
      omega
    · rw [List.cons.sizeOf_spec]
      omega

end

mutual

theorem exists_run_shaderType (t : ValueType) (ht : t.expressible = true) (names : ShaderNames) :
    ∃ name later, (shaderType t).run names = .ok (name, later) := by
  cases t with
  | double | bsdf | edf | vdf => cases ht
  | vector element size =>
    obtain ⟨helement, hsize⟩ := Bool.and_eq_true_iff.mp ht
    obtain ⟨name, hname⟩ := vectorName_ok (bne_iff_ne.mp helement) hsize
    rw [shaderType, hname]
    exact ⟨_, _, rfl⟩
  | matrix columns rows =>
    rw [ValueType.expressible] at ht
    rw [shaderType, if_pos ht]
    exact ⟨_, _, rfl⟩
  | array element size =>
    obtain ⟨name, later, helement⟩ := exists_run_shaderType element ht names
    rw [shaderType, ShaderM.run_bind_of_ok helement]
    exact ⟨_, _, rfl⟩
  | struct name fields =>
    cases hfound : names.structs.find? fun s => decide (s.type = .struct name fields) with
    | some s => exact ⟨_, _, shaderType_of_find? hfound⟩
    | none =>
      obtain ⟨lines, mid, hlines⟩ := exists_run_shaderFields fields ht 0 names
      have hget : (get : ShaderM ShaderNames).run names = .ok (names, names) := rfl
      rw [shaderType, ShaderM.run_bind_of_ok hget, hfound]
      dsimp only
      rw [ShaderM.run_bind_of_ok hlines]
      exact ⟨_, _, rfl⟩
  | _ => exact ⟨_, _, rfl⟩

theorem exists_run_shaderFields (fields : List (String × ValueType))
    (hfields : ValueType.fieldsExpressible fields = true) (index : Nat) (names : ShaderNames) :
    ∃ lines later, (shaderFields index fields).run names = .ok (lines, later) := by
  cases fields with
  | nil => exact ⟨_, _, rfl⟩
  | cons f rest =>
    obtain ⟨ht, hrest⟩ := Bool.and_eq_true_iff.mp hfields
    obtain ⟨type, mid, htype⟩ := exists_run_shaderType f.2 ht names
    obtain ⟨lines, later, hlines⟩ := exists_run_shaderFields rest hrest (index + 1) mid
    rw [shaderFields, ShaderM.run_bind_of_ok htype, ShaderM.run_bind_of_ok hlines]
    exact ⟨_, _, rfl⟩

end

/-- A type that can be expressed gets a name. -/
theorem shaderType_names (t : ValueType) (ht : t.expressible = true) (names : ShaderNames) :
    ∃ name later, NamedBy t names name later := by
  obtain ⟨name, later, h⟩ := exists_run_shaderType t ht names
  exact ⟨name, later, shaderType_named t h⟩

end Shading
