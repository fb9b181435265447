import Shading.Fragment.Basic
import Shading.Intrinsic

/-!
# Libraries of fragments

What the name in a call stands for: a fragment of the library, or else an intrinsic.

Main definitions:

- `Resolver` tells what names stand for; `Library.resolver` is the resolver of a library.
- `Library` holds fragments by name, and `Library.resolve?` resolves a name.
- `Library.resourceRefs` lists the resources that a fragment refers to, those of the
  fragments that it calls included.
-/

namespace Shading

/-- What the name in a call stands for. -/
inductive Resolution
  | intrinsic (i : Intrinsic)
  | fragment (f : Fragment)

/-- Tells what the names in calls stand for. -/
structure Resolver where
  resolve? : String → Option Resolution

/-- Fragments that calls can name. -/
structure Library where
  fragments : OrderedMap String Fragment

namespace Library

/-- The library without fragments. -/
def empty : Library :=
  ⟨OrderedMap.empty⟩

/-- Lets a name stand for a fragment. -/
def insert (lib : Library) (name : String) (f : Fragment) : Library :=
  ⟨lib.fragments.insert name f⟩

/-- What a name stands for.  A fragment hides an intrinsic of the same name. -/
def resolve? (lib : Library) (name : String) : Option Resolution :=
  match lib.fragments.find? name with
  | some f => some (.fragment f)
  | none => (Intrinsic.ofName? name).map .intrinsic

/-- The names of a library. -/
def resolver (lib : Library) : Resolver :=
  ⟨lib.resolve?⟩

instance : Coe Library Resolver :=
  ⟨resolver⟩

/-! ## Resources -/

/-- The number of fragments that were not entered yet. -/
def unvisited (lib : Library) (visited : List String) : Nat :=
  lib.fragments.entries.countP fun e => decide (e.1 ∉ visited)

/-- Entering a fragment leaves fewer fragments to enter. -/
theorem unvisited_cons_lt {lib : Library} {visited : List String} {name : String} {f : Fragment}
    (found : lib.fragments.find? name = some f) (fresh : name ∉ visited) :
    lib.unvisited (name :: visited) < lib.unvisited visited := by
  unfold OrderedMap.find? at found
  obtain ⟨e, he, -⟩ := Option.map_eq_some_iff.mp found
  have mem := List.mem_of_find?_eq_some he
  have key : e.1 = name := by simpa using List.find?_some he
  apply Graph.countP_lt_countP (a := e)
  · intro x
    simp
  · exact mem
  · simpa [key] using fresh
  · simp [key]

/-- The resources in the constants of a list of nodes.  Where a node calls a fragment, the
nodes of the fragment are looked at in its place, but only once. -/
def nodeRefs (lib : Library) (nodes : List Node) (visited : List String) : List ResourceRef :=
  match nodes with
  | [] => []
  | node :: rest =>
    match node.op with
    | .constant value => value.resources ++ lib.nodeRefs rest visited
    | .call name _ =>
      match found : lib.fragments.find? name with
      | none => lib.nodeRefs rest visited
      | some f =>
        if fresh : name ∈ visited then lib.nodeRefs rest visited
        else
          have := unvisited_cons_lt found fresh
          lib.nodeRefs (f.reachable.map (·.2) ++ rest) (name :: visited)
    | _ => lib.nodeRefs rest visited
termination_by (lib.unvisited visited, nodes.length)
decreasing_by
  all_goals simp_wf
  · exact Prod.Lex.right _ (Nat.lt_succ_self _)
  · exact Prod.Lex.right _ (Nat.lt_succ_self _)
  · exact Prod.Lex.right _ (Nat.lt_succ_self _)
  · exact Prod.Lex.left _ _ this
  · exact Prod.Lex.right _ (Nat.lt_succ_self _)

/-- The resources that a fragment refers to: those of its nodes and of the fragments that
it calls, then those of its parameter values. -/
def resourceRefs (lib : Library) (f : Fragment) : List ResourceRef :=
  lib.nodeRefs (f.reachable.map (·.2)) [] ++ f.argumentValues.flatMap Value.resources

end Library

end Shading
