import Mathlib
import Shading.Fragment.Library

/-!
# The walk through called fragments

Fragments may call themselves or each other.  Listing what they refer to goes into a fragment where
it is called, and remembers the names it went into.  Here this walk is written as one function that
calls itself for the body of a fragment and then goes on, without a reason why it ends.

Main definitions:

- `Library.explore` is the walk.

Main results:

- `Library.explore_eq`: the walk ends, lists what `Library.nodeRefs` lists, and goes into no
  fragment twice.
-/

namespace Shading

open List
namespace Library

/-- The resources in the constants of a list of nodes, and the names of the fragments that were
gone into, the last one first. -/
def explore (lib : Library) (nodes : List Node) (entered : List String) :
    Option (List ResourceRef × List String) :=
  match nodes with
  | [] => some ([], entered)
  | node :: rest =>
    match node.op with
    | .constant value => do
      let (refs, entered) ← lib |>.explore rest entered
      return (value.resources ++ refs, entered)
    | .call name _ =>
      match lib.fragments.find? name with
      | none => lib |>.explore rest entered
      | some f =>
        if name ∈ entered then lib |>.explore rest entered
        else do
          let (inner, entered) ← lib |>.explore (f.reachable.map (·.2)) (name :: entered)
          let (refs, entered) ← lib |>.explore rest entered
          return (inner ++ refs, entered)
    | _ => lib |>.explore rest entered
partial_fixpoint

/-- A walk that ended.  It listed what `nodeRefs` lists for the nodes, whatever nodes come after
them, and went into fragments of the library, into each of them once. -/
structure Explored (lib : Library) (nodes : List Node) (entered : List String)
    (refs : List ResourceRef) (entered' : List String) : Prop where
  refs : ∀ more, lib.nodeRefs (nodes ++ more) entered = refs ++ lib.nodeRefs more entered'
  keeps : entered ⊆ entered'
  nodup : entered.Nodup → entered'.Nodup
  known : ∀ name ∈ entered', name ∈ entered ∨ (lib.fragments.find? name).isSome

variable {lib : Library} {rest : List Node} {node : Node} {entered : List String}

theorem unvisited_mono {visited visited' : List String} (h : visited ⊆ visited') :
    lib.unvisited visited' ≤ lib.unvisited visited := by
  refine countP_mono_left fun e _ he => ?_
  simp only [decide_eq_true_eq] at he ⊢
  exact fun hmem => he (h hmem)

theorem Explored.nil : lib.Explored [] entered [] entered :=
  ⟨fun _ => rfl, fun _ h => h, id, fun _ h => .inl h⟩

/-- A node that makes no difference to the list. -/
theorem Explored.skip {refs : List ResourceRef} {entered' : List String}
    (h : lib.Explored rest entered refs entered')
    (hskip : ∀ more, lib.nodeRefs (node :: (rest ++ more)) entered
      = lib.nodeRefs (rest ++ more) entered) : lib.Explored (node :: rest) entered refs entered' :=
  ⟨fun more => (hskip more).trans (h.refs more), h.keeps, h.nodup, h.known⟩

theorem Explored.constant {refs : List ResourceRef} {entered' : List String} {value : Value}
    (h : lib.Explored rest entered refs entered') (hnode : node.op = .constant value) :
    lib.Explored (node :: rest) entered (value.resources ++ refs) entered' := by
  refine ⟨fun more => ?_, h.keeps, h.nodup, h.known⟩
  rw [cons_append, nodeRefs]
  simp only [hnode]
  rw [h.refs more, append_assoc]

/-- A call of a fragment that was not gone into: its body is listed in its place. -/
theorem Explored.enter {name : String} {args : List Nat} {f : Fragment}
    {inner refs : List ResourceRef} {inside entered' : List String}
    (hnode : node.op = .call name args) (hfound : lib.fragments.find? name = some f)
    (hfresh : name ∉ entered)
    (hinner : lib.Explored (f.reachable.map (·.2)) (name :: entered) inner inside)
    (hrest : lib.Explored rest inside refs entered') :
    lib.Explored (node :: rest) entered (inner ++ refs) entered' where
  refs more := by
    rw [cons_append, nodeRefs]
    simp only [hnode]
    split
    · rename_i hnone
      rw [hfound] at hnone
      cases hnone
    · rename_i f' hfound'
      cases hfound.symm.trans hfound'
      rw [dif_neg hfresh, hinner.refs, hrest.refs, append_assoc]
  keeps := fun _ hx => hrest.keeps (hinner.keeps (mem_cons_of_mem _ hx))
  nodup h := hrest.nodup (hinner.nodup (nodup_cons.mpr ⟨hfresh, h⟩))
  known other hother := by
    rcases hrest.known other hother with hother | hsome
    · rcases hinner.known other hother with hother | hsome
      · rcases mem_cons.mp hother with rfl | hother
        · exact .inr (by rw [hfound]; rfl)
        · exact .inl hother
      · exact .inr hsome
    · exact .inr hsome

/-- The walk ends.  The induction is on the number of fragments that were not gone into, and inside
on the nodes. -/
theorem exists_explored (nodes : List Node) (bound : Nat) (hbound : lib.unvisited entered ≤ bound) :
    ∃ refs entered', lib.explore nodes entered = some (refs, entered') ∧
      lib.Explored nodes entered refs entered' := by
  induction bound using Nat.strongRecOn generalizing nodes entered with
  | _ bound ih =>
  induction nodes generalizing entered with
  | nil => exact ⟨[], entered, by rw [explore], .nil⟩
  | cons node rest ihrest =>
    obtain ⟨refs, entered', hrun, hrest⟩ := ihrest hbound
    rw [explore]
    split
    · rename_i value hop
      exact ⟨_, entered', by rw [hrun]; rfl, hrest.constant hop⟩
    · rename_i name args hop
      split
      · rename_i hnone
        refine ⟨refs, entered', hrun, hrest.skip fun more => ?_⟩
        rw [nodeRefs]
        simp only [hop]
        split
        · rfl
        · rename_i hsome
          rw [hnone] at hsome
          cases hsome
      · rename_i f hfound
        by_cases hseen : name ∈ entered
        · rw [if_pos hseen]
          refine ⟨refs, entered', hrun, hrest.skip fun more => ?_⟩
          rw [nodeRefs]
          simp only [hop]
          split
          · rfl
          · rw [dif_pos hseen]
        · rw [if_neg hseen]
          have hless := Nat.lt_of_lt_of_le (unvisited_cons_lt hfound hseen) hbound
          obtain ⟨inner, inside, hinside, hinner⟩ :=
            ih _ hless (f.reachable.map (·.2)) (Nat.le_refl _)
          have hinside' := Nat.lt_of_le_of_lt (unvisited_mono hinner.keeps) hless
          obtain ⟨refs, entered', hrun, hrest⟩ := ihrest (Nat.le_of_lt hinside')
          refine ⟨inner ++ refs, entered', ?_, .enter hop hfound hseen hinner hrest⟩
          simp only [hinside, hrun, Option.bind_eq_bind, Option.bind_some, Option.pure_def]
    · rename_i hconstant hcall
      refine ⟨refs, entered', hrun, hrest.skip fun more => ?_⟩
      rw [nodeRefs]
      cases hop : node.op <;> simp_all

/-- The walk of some nodes ends, lists their resources, and goes into fragments of the library
only, into each of them once. -/
theorem explore_eq (lib : Library) (nodes : List Node) :
    ∃ entered, lib.explore nodes [] = some (lib.nodeRefs nodes [], entered) ∧ entered.Nodup ∧
      ∀ name ∈ entered, (lib.fragments.find? name).isSome := by
  obtain ⟨refs, entered, hrun, h⟩ := exists_explored nodes _ (Nat.le_refl (lib.unvisited []))
  have hrefs := h.refs []
  rw [append_nil, nodeRefs, append_nil] at hrefs
  refine ⟨entered, by rw [hrun, hrefs], h.nodup nodup_nil, fun name hname => ?_⟩
  exact (h.known name hname).resolve_left not_mem_nil

end Library
end Shading
