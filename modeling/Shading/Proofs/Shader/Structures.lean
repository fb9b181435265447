import Mathlib
import Shading.Proofs.Shader.Declarations

/-!
# Structures in shader text

Types are named one after another, and a structure is defined in the middle of naming
whatever contains it.  Still every definition stands behind those that it uses, and no two
structures share a name, however their names look after cleaning and numbering.

Main definitions:

- `ValueType.innermost` is the type of the elements of the elements of an array, and so on.
- `ShaderNames.Ordered` says that every structure was defined with those before it.

Main results:

- Theorem `structures_are_named_apart_and_defined_in_order`: any types named in a row.
-/

namespace Shading

open List

variable {names later : ShaderNames} {text : String}

/-- What arrays of arrays are made of, any other type itself. -/
def ValueType.innermost : ValueType → ValueType
  | .array element _ => element.innermost
  | t => t

/-- Every structure was defined when those before it were. -/
def ShaderNames.Ordered (names : ShaderNames) : Prop :=
  ∀ k s, names.structs[k]? = some s → Defines ⟨names.structs.take k, names.stubs⟩ s

theorem ShaderNames.NewWithin.ordered {bound : Nat} (h : names.NewWithin bound later)
    (hnames : names.Ordered) : later.Ordered := by
  induction h with
  | refl => exact hnames
  | @define mid s _ hs _ ih =>
    intro k other hk
    rcases Nat.lt_or_ge k mid.structs.length with hlt | hge
    · rw [getElem?_append_left hlt] at hk
      rw [take_append_of_le_length hlt.le]
      exact ih k other hk
    · rw [getElem?_append_right hge, getElem?_singleton] at hk
      split at hk
      · obtain rfl : k = mid.structs.length := by omega
        cases hk
        rw [take_left]
        exact hs
      · cases hk

/-- The structure of a type that has a name is defined under this name. -/
theorem exists_struct_of_run {name : String} {fields : List (String × ValueType)}
    (h : (shaderType (.struct name fields)).run names = .ok (text, names)) :
    ∃ s ∈ names.structs, s.type = .struct name fields ∧ s.name = text := by
  cases hfound : names.structs.find? fun s => decide (s.type = .struct name fields) with
  | some s =>
    cases (shaderType_of_find? hfound).symm.trans h
    exact ⟨s, mem_of_find?_eq_some hfound, by simpa using find?_some hfound, rfl⟩
  | none =>
    -- Otherwise one more structure would be defined.
    rw [shaderType] at h
    rcases ShaderM.run_bind_eq_ok h with ⟨_, _, hget, h⟩
    cases hget
    rw [hfound] at h
    rcases ShaderM.run_bind_eq_ok h with ⟨lines, mid, hlines, h⟩
    have hle := (shaderFields_named fields 0 hlines).1.grows.structs.length_le
    rcases nameStruct_run (.struct name fields) name lines mid with ⟨s, hs, -⟩
    have hnames := congrArg (fun out => out.map fun p => p.2.structs.length) (hs.symm.trans h)
    simp [Except.map] at hnames
    omega

theorem exists_innermost_of_run (t : ValueType) {text name : String}
    {fields : List (String × ValueType)} (ht : t.innermost = .struct name fields)
    (h : (shaderType t).run names = .ok (text, names)) :
    ∃ s ∈ names.structs, s.type = .struct name fields := by
  cases t with
  | array element size =>
    rw [shaderType] at h
    rcases ShaderM.run_bind_eq_ok h with ⟨e, mid, helement, h⟩
    cases h
    exact exists_innermost_of_run element ht helement
  | struct =>
    cases ht
    rcases exists_struct_of_run h with ⟨s, hs, htype, -⟩
    exact ⟨s, hs, htype⟩
  | _ => cases ht

/-- What is new at every position is nowhere twice. -/
theorem nodup_map_of_new {α β : Type} {f : α → β} {l : List α}
    (h : ∀ k a, l[k]? = some a → ∀ b ∈ l.take k, f b ≠ f a) : (l.map f).Nodup := by
  rw [List.Nodup, pairwise_map, pairwise_iff_getElem]
  intro i j hi hj hij
  refine h j _ (getElem?_eq_getElem hj) _ (mem_take_iff_getElem.mpr ⟨i, ?_, rfl⟩)
  exact Nat.lt_min.mpr ⟨hij, hi⟩

theorem mapM_shaderType_named {types : List ValueType} {texts : List String}
    (h : (types.mapM shaderType).run names = .ok (texts, later)) :
    names.Grows later ∧ (names.Ordered → later.Ordered) ∧
      Forall₂ later.HasName types texts := by
  induction types generalizing names texts with
  | nil =>
    cases h
    exact ⟨.refl _, id, .nil⟩
  | cons t types ih =>
    rw [mapM_cons] at h
    rcases ShaderM.run_bind_eq_ok h with ⟨text, mid, ht, h⟩
    rcases ShaderM.run_bind_eq_ok h with ⟨rest, last, hrest, h⟩
    cases h
    have hnamed := shaderType_named t ht
    rcases ih hrest with ⟨hgrows, hordered, hnames⟩
    exact ⟨hnamed.grows.trans hgrows, fun h => hordered (hnamed.new.ordered h),
      .cons (hnamed.hasName.mono hgrows) hnames⟩

/-- Any types named one after another.

- A type that comes again has the same name, and a structure is called as it is defined.
- No type and no name is defined twice, so different structures have different names.
- The name of a structure has the first number with which it is new, and there is one.
- Its definition has one line for each field.  The type of the field has a name by then, and
  the structure in it is defined before. -/
theorem structures_are_named_apart_and_defined_in_order {types : List ValueType}
    {texts : List String} (h : (types.mapM shaderType).run .empty = .ok (texts, names)) :
    texts.length = types.length ∧
      (∀ t text text', (t, text) ∈ types.zip texts → (t, text') ∈ types.zip texts → text = text') ∧
      (∀ name fields text, (.struct name fields, text) ∈ types.zip texts →
        ∃ s ∈ names.structs, s.type = .struct name fields ∧ s.name = text) ∧
      (names.structs.map (·.type)).Nodup ∧ (names.structs.map (·.name)).Nodup ∧
      ∀ (k : Nat) s, names.structs[k]? = some s → ∃ name fields members,
        s.type = .struct name fields ∧ s.definition = structText s.name members ∧
        (∃ n ≤ k, s.name = numberedName ("S_" ++ sanitize name) n ∧ ∀ m < n,
          numberedName ("S_" ++ sanitize name) m ∈ (names.structs.take k).map (·.name)) ∧
        Forall₂ (fun field line => ShaderNames.IsMember ⟨names.structs.take k, []⟩ field line ∧
          ∀ inner others, field.1.2.innermost = .struct inner others →
            ∃ other ∈ names.structs.take k, other.type = .struct inner others)
          fields.zipIdx members := by
  rcases mapM_shaderType_named h with ⟨hgrows, hordered, hnames⟩
  have hdefined : names.Ordered := hordered fun k s hs => by cases hs
  rcases forall₂_iff_zip.mp hnames with ⟨hlength, hname⟩
  have hrun {t text} (ht : (t, text) ∈ types.zip texts) :
      (shaderType t).run names = .ok (text, names) := hname ht names (.refl names)
  refine ⟨hlength.symm, ?_, fun _ _ _ ht => exists_struct_of_run (hrun ht),
    nodup_map_of_new fun k s hs => (hdefined k s hs).new, nodup_map_of_new ?_, ?_⟩
  · intro t text text' ht ht'
    cases (hrun ht).symm.trans (hrun ht')
    rfl
  · intro k s hs other hother heq
    rcases (hdefined k s hs).written with ⟨name, fields, members, -, hfresh, -⟩
    apply (freshName_spec ("S_" ++ sanitize name) _).1
    rw [← hfresh, ← heq]
    exact mem_map_of_mem hother
  · intro k s hs
    have hstubs : names.stubs = [] := hgrows.stubs
    rcases (hdefined k s hs).written with ⟨name, fields, members, htype, hfresh, hmembers, htext⟩
    rcases (freshName_spec ("S_" ++ sanitize name) _).2 with ⟨n, hn, hnumber, hused⟩
    rw [hstubs] at hmembers
    refine ⟨name, fields, members, htype, htext, ⟨n, ?_, hfresh.trans hnumber, hused⟩,
      hmembers.imp fun field line hline => ⟨hline, fun inner others hinner => ?_⟩⟩
    · rw [length_map, length_take] at hn
      exact hn.trans (Nat.min_le_left _ _)
    · rcases hline with ⟨type, hnamed, -⟩
      exact exists_innermost_of_run field.1.2 hinner (hnamed _ (.refl _))

/-- Three structures whose names collide after cleaning and numbering, the last of them with
the first inside. -/
def namesakes : List ValueType :=
  [.struct "x" [], .struct "x_1" [], .struct "x" [("inner", .array (.struct "x" []) 2)]]

theorem structures_are_named_apart_and_defined_in_order_namesakes :
    ∃ names, (namesakes.mapM shaderType).run .empty = .ok (["S_x", "S_x_1", "S_x_2"], names) ∧
      (names.structs.map (·.type)).Nodup ∧ (names.structs.map (·.name)).Nodup := by
  have hrun : ∃ texts names, (namesakes.mapM shaderType).run .empty = .ok (texts, names) ∧
      texts = ["S_x", "S_x_1", "S_x_2"] := ⟨_, _, rfl, by decide⟩
  rcases hrun with ⟨texts, names, hrun, rfl⟩
  rcases structures_are_named_apart_and_defined_in_order hrun with ⟨-, -, -, htypes, hnames, -⟩
  exact ⟨names, hrun, htypes, hnames⟩

end Shading
