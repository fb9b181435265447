import Shading.Fragment.Library
import Shading.Proofs.Graph.Reach

/-!
# The resources of a fragment

`Library.resourceRefs` lists what a fragment refers to and looks at every fragment of the
library at most once.  Lowering looks at a fragment again for every call of it.  Here the
literals that lowering meets are described without a list of visited fragments, and
found to be covered by the list of references.

Main definitions:

- `Resolver.Meets` says that a literal stands in a graph or in a fragment that is called
  from there, over any number of calls.
- `Resolver.Calls` says that a name is called from a graph, over any number of calls.

Main results:

- `Library.resources_subset_nodeRefs`: every resource in a literal that is met is listed.
-/

namespace Shading

open List

/-- A name stands for a fragment if the library has the fragment under the name. -/
@[simp]
theorem Library.resolve?_eq_fragment_iff {lib : Library} {name : String} {f : Fragment} :
    lib.resolver.resolve? name = some (.fragment f) ↔ lib.fragments.find? name = some f := by
  show lib.resolve? name = _ ↔ _
  unfold Library.resolve?
  cases lib.fragments.find? name <;> simp

namespace Resolver

/-- A literal is met from some roots of a graph if it is a node that the roots reach, or is
met from the results of a fragment that such a node calls. -/
inductive Meets (names : Resolver) : Graph → List Nat → Value → Prop
  | constant {g : Graph} {roots : List Nat} {id : Nat} {value : Value} {type : ValueType}
      (hid : g.Reachable roots id) (hnode : g.node? id = some ⟨.constant value, type⟩) :
      names.Meets g roots value
  | call {g : Graph} {roots : List Nat} {id : Nat} {name : String} {args : List Nat}
      {type : ValueType} {f : Fragment} {value : Value} (hid : g.Reachable roots id)
      (hnode : g.node? id = some ⟨.call name args, type⟩)
      (hfound : names.resolve? name = some (.fragment f))
      (hmeets : names.Meets f.graph f.rootNodes value) : names.Meets g roots value

/-- A name is called from some roots of a graph if a node that the roots reach calls it, or
it is called from the results of a fragment that such a node calls. -/
inductive Calls (names : Resolver) : Graph → List Nat → String → Prop
  | here {g : Graph} {roots : List Nat} {id : Nat} {name : String} {args : List Nat}
      {type : ValueType} (hid : g.Reachable roots id)
      (hnode : g.node? id = some ⟨.call name args, type⟩) : names.Calls g roots name
  | call {g : Graph} {roots : List Nat} {id : Nat} {name called : String} {args : List Nat}
      {type : ValueType} {f : Fragment} (hid : g.Reachable roots id)
      (hnode : g.node? id = some ⟨.call name args, type⟩)
      (hfound : names.resolve? name = some (.fragment f))
      (hcalls : names.Calls f.graph f.rootNodes called) : names.Calls g roots called

variable {names : Resolver} {g : Graph} {roots roots' : List Nat}

theorem Meets.of_reachable {value : Value} (h : names.Meets g roots' value)
    (hroots : ∀ r ∈ roots', g.Reachable roots r) : names.Meets g roots value := by
  cases h with
  | constant hid hnode => exact .constant (hid.trans hroots) hnode
  | call hid hnode hfound hmeets => exact .call (hid.trans hroots) hnode hfound hmeets

theorem Calls.of_reachable {name : String} (h : names.Calls g roots' name)
    (hroots : ∀ r ∈ roots', g.Reachable roots r) : names.Calls g roots name := by
  cases h with
  | here hid hnode => exact .here (hid.trans hroots) hnode
  | call hid hnode hfound hcalls => exact .call (hid.trans hroots) hnode hfound hcalls

end Resolver

theorem Fragment.mem_reachable_iff {f : Fragment} {node : Node} :
    node ∈ f.reachable.map (·.2) ↔
      ∃ id, f.graph.Reachable f.rootNodes id ∧ f.graph.node? id = some node := by
  unfold Fragment.reachable
  rw [map_filterMap]
  simp only [mem_filterMap, Option.map_map, Graph.mem_postOrder_iff]
  constructor
  · rintro ⟨id, ⟨hid, -⟩, hnode⟩
    exact ⟨id, hid, by simpa using hnode⟩
  · rintro ⟨id, hid, hnode⟩
    exact ⟨id, ⟨hid, Graph.node?_isSome_iff.mp (by rw [hnode]; rfl)⟩, by simpa using hnode⟩

namespace Library

variable {lib : Library}

/-- What a list of nodes needs is covered: the resources of its constants are listed, and
the fragments that it calls are looked at. -/
structure Covers (lib : Library) (nodes : List Node) (names : List String)
    (refs : List ResourceRef) : Prop where
  constants : ∀ value type, ⟨.constant value, type⟩ ∈ nodes → value.resources ⊆ refs
  calls : ∀ name args type, ⟨.call name args, type⟩ ∈ nodes →
    (lib.fragments.find? name).isSome → name ∈ names

namespace Covers

variable {nodes nodes' : List Node} {names : List String} {refs refs' : List ResourceRef}

theorem mono (h : lib.Covers nodes names refs) (hnodes : nodes' ⊆ nodes) (hrefs : refs ⊆ refs') :
    lib.Covers nodes' names refs' where
  constants value type hmem := List.Subset.trans (h.constants value type (hnodes hmem)) hrefs
  calls name args type hmem := h.calls name args type (hnodes hmem)

theorem cons {node : Node} (h : lib.Covers nodes names refs)
    (hnode : lib.Covers [node] names refs) : lib.Covers (node :: nodes) names refs where
  constants value type hmem := by
    rcases mem_cons.mp hmem with rfl | hmem
    · exact hnode.constants value type mem_cons_self
    · exact h.constants value type hmem
  calls name args type hmem hfound := by
    rcases mem_cons.mp hmem with rfl | hmem
    · exact hnode.calls name args type mem_cons_self hfound
    · exact h.calls name args type hmem hfound

end Covers

/-- The list of references covers its nodes together with the fragments that were looked
at on the way; those that were visited before are left to whoever visited them. -/
theorem exists_covers_nodeRefs (nodes : List Node) (visited : List String) :
    ∃ names, visited ⊆ names ∧ lib.Covers nodes names (lib.nodeRefs nodes visited) ∧
      ∀ name ∈ names, name ∉ visited → ∀ f, lib.fragments.find? name = some f →
        lib.Covers (f.reachable.map (·.2)) names (lib.nodeRefs nodes visited) := by
  fun_induction lib.nodeRefs nodes visited with
  | case1 => exact ⟨_, List.Subset.refl _, ⟨by simp, by simp⟩, fun _ hmem hnot => absurd hmem hnot⟩
  | case2 visited node rest value hop ih =>
    obtain ⟨names, hvisited, hnodes, hfragments⟩ := ih
    have hmore := subset_append_right value.resources (lib.nodeRefs rest visited)
    refine ⟨names, hvisited, (hnodes.mono (List.Subset.refl _) hmore).cons ?_,
      fun name hmem hnot f hf =>
        (hfragments name hmem hnot f hf).mono (List.Subset.refl _) hmore⟩
    constructor
    · intro value' type hmem
      cases mem_singleton.mp hmem
      cases hop
      exact subset_append_left _ _
    · intro name args type hmem
      cases mem_singleton.mp hmem
      cases hop
  | case3 visited node rest name args hop hfound ih =>
    obtain ⟨names, hvisited, hnodes, hfragments⟩ := ih
    refine ⟨names, hvisited, hnodes.cons ⟨?_, ?_⟩, hfragments⟩
    · intro value type hmem
      cases mem_singleton.mp hmem
      cases hop
    · intro name' args' type hmem hsome
      cases mem_singleton.mp hmem
      cases hop
      rw [hfound] at hsome
      cases hsome
  | case4 visited node rest name args hop f hfound hseen ih =>
    obtain ⟨names, hvisited, hnodes, hfragments⟩ := ih
    refine ⟨names, hvisited, hnodes.cons ⟨?_, ?_⟩, hfragments⟩
    · intro value type hmem
      cases mem_singleton.mp hmem
      cases hop
    · intro name' args' type hmem _
      cases mem_singleton.mp hmem
      cases hop
      exact hvisited hseen
  | case5 visited node rest name args hop f hfound hfresh hlt ih =>
    obtain ⟨names, hvisited, hnodes, hfragments⟩ := ih
    have hname : name ∈ names := hvisited mem_cons_self
    refine ⟨names, fun x hx => hvisited (mem_cons_of_mem _ hx),
      (hnodes.mono (subset_append_right _ _) (List.Subset.refl _)).cons ⟨?_, ?_⟩, ?_⟩
    · intro value type hmem
      cases mem_singleton.mp hmem
      cases hop
    · intro name' args' type hmem _
      cases mem_singleton.mp hmem
      cases hop
      exact hname
    · intro name' hmem hnot f' hf'
      by_cases hsame : name' = name
      · subst hsame
        cases hfound.symm.trans hf'
        exact hnodes.mono (subset_append_left _ _) (List.Subset.refl _)
      · refine hfragments name' hmem ?_ f' hf'
        intro h
        exact (mem_cons.mp h).elim hsame hnot
  | case6 visited node rest hconstant hcall ih =>
    obtain ⟨names, hvisited, hnodes, hfragments⟩ := ih
    refine ⟨names, hvisited, hnodes.cons ⟨?_, ?_⟩, hfragments⟩
    · intro value type hmem
      cases mem_singleton.mp hmem
      exact absurd rfl (hconstant value)
    · intro name args type hmem
      cases mem_singleton.mp hmem
      exact absurd rfl (hcall name args)

/-- Where all fragments that are looked at are covered, so are the literals that are met
from a graph whose nodes are covered. -/
theorem Covers.resources_subset {names : List String} {refs : List ResourceRef} {g : Graph}
    {roots : List Nat} {value : Value}
    (hcallees : ∀ name ∈ names, ∀ f, lib.fragments.find? name = some f →
      lib.Covers (f.reachable.map (·.2)) names refs)
    (hmeets : lib.resolver.Meets g roots value) {nodes : List Node}
    (hcovers : lib.Covers nodes names refs)
    (hnodes : ∀ id node, g.Reachable roots id → g.node? id = some node → node ∈ nodes) :
    value.resources ⊆ refs := by
  induction hmeets generalizing nodes with
  | constant hid hnode => exact hcovers.constants _ _ (hnodes _ _ hid hnode)
  | call hid hnode hfound hmeets ih =>
    rw [resolve?_eq_fragment_iff] at hfound
    have hname := hcovers.calls _ _ _ (hnodes _ _ hid hnode) (by rw [hfound]; rfl)
    exact ih (hcallees _ hname _ hfound) fun id node hid hnode =>
      Fragment.mem_reachable_iff.mpr ⟨id, hid, hnode⟩

/-- Every resource in a literal that is met from the results of a fragment is listed. -/
theorem resources_subset_nodeRefs {f : Fragment} {value : Value}
    (h : lib.resolver.Meets f.graph f.rootNodes value) :
    value.resources ⊆ lib.nodeRefs (f.reachable.map (·.2)) [] := by
  obtain ⟨names, -, hnodes, hfragments⟩ :=
    lib.exists_covers_nodeRefs (f.reachable.map (·.2)) []
  exact Covers.resources_subset
    (fun name hmem f hf => hfragments name hmem not_mem_nil f hf) h hnodes
    fun id node hid hnode => Fragment.mem_reachable_iff.mpr ⟨id, hid, hnode⟩

end Library
end Shading
