import Shading.Graph.Basic

/-!
# What a walk of a graph lists

The walk of `Graph.postOrder` keeps a stack and the ids it has seen.  Here the list it
gives is described without them: it holds the nodes that can be reached from the roots.

Main definitions:

- `Graph.Reachable` says that an id can be reached from some roots.
- `Graph.AgreesFrom` says that two graphs hold the same nodes wherever the roots reach.

Main results:

- `Graph.mem_postOrder_iff`: the walk lists a node exactly if it can be reached.
- `Graph.postOrder_congr`: graphs that agree from the roots are walked alike.
-/

namespace Shading

open List

variable {g : Graph} {id : Nat} {roots : List Nat}
namespace Graph

/-- An id is reached if it is a root or is read by a node that is reached.  There need not
be a node at the id. -/
inductive Reachable (g : Graph) (roots : List Nat) : Nat → Prop
  | root {id : Nat} (hmem : id ∈ roots) : Reachable g roots id
  | arg {id a : Nat} {node : Node} (hid : Reachable g roots id) (hnode : g.node? id = some node)
      (ha : a ∈ node.args) : Reachable g roots a

namespace Reachable

variable {g : Graph} {roots roots' : List Nat} {id : Nat}

/-- What is reached from ids that are reached is reached. -/
theorem trans (h : g.Reachable roots' id) (hroots : ∀ r ∈ roots', g.Reachable roots r) :
    g.Reachable roots id := by
  induction h with
  | root hmem => exact hroots _ hmem
  | arg hid hnode ha ih => exact ih.arg hnode ha

theorem mono (h : g.Reachable roots' id) (hsub : ∀ r ∈ roots', r ∈ roots) : g.Reachable roots id :=
  h.trans fun r hr => .root (hsub r hr)

end Reachable

theorem not_reachable_nil : ¬g.Reachable [] id := by
  intro h
  induction h with
  | root hmem => cases hmem
  | arg _ _ _ ih => exact ih

/-- An id is reached from two lists of roots if one of them reaches it. -/
theorem reachable_append {roots' : List Nat} :
    g.Reachable (roots ++ roots') id ↔ g.Reachable roots id ∨ g.Reachable roots' id := by
  constructor
  · intro h
    induction h with
    | root hmem => exact (mem_append.mp hmem).imp .root .root
    | arg _ hnode ha ih => exact ih.imp (·.arg hnode ha) (·.arg hnode ha)
  · rintro (h | h)
    · exact h.mono fun r hr => mem_append_left _ hr
    · exact h.mono fun r hr => mem_append_right _ hr

/-! ## The walk -/

section Walk

variable {g : Graph}

theorem node?_of_lt (h : id < g.size) : g.node? id = some g.nodes[id] :=
  Array.getElem?_eq_getElem h

theorem node?_isSome_iff : (g.node? id).isSome ↔ id < g.size := by
  unfold node? size
  simp

/-- A listed node was due to be listed, or is reached from an id that was due to be
entered. -/
theorem reachable_of_mem_walk {stack : List Visit} {seen : List Nat} (h : id ∈ g.walk stack seen) :
    .leave id ∈ stack ∨ (id < g.size ∧ ∃ r, .enter r ∈ stack ∧ g.Reachable [r] id) := by
  fun_induction g.walk stack seen with
  | case1 => cases h
  | case2 seen done rest ih =>
    rcases mem_cons.mp h with rfl | h
    · exact .inl mem_cons_self
    · rcases ih h with h | ⟨hlt, r, hr, hreach⟩
      · exact .inl (mem_cons_of_mem _ h)
      · exact .inr ⟨hlt, r, mem_cons_of_mem _ hr, hreach⟩
  | case3 seen first rest hlt hseen ih =>
    rcases ih h with h | ⟨hlt, r, hr, hreach⟩
    · exact .inl (mem_cons_of_mem _ h)
    · exact .inr ⟨hlt, r, mem_cons_of_mem _ hr, hreach⟩
  | case4 seen first rest hfirst hseen ih =>
    have hself : g.Reachable [first] first := .root (mem_singleton.mpr rfl)
    rcases ih h with h | ⟨hlt, r, hr, hreach⟩
    · rcases mem_append.mp h with h | h
      · simp at h
      · rcases mem_cons.mp h with h | h
        · cases h
          exact .inr ⟨hfirst, id, mem_cons_self, hself⟩
        · exact .inl (mem_cons_of_mem _ h)
    · refine .inr ⟨hlt, ?_⟩
      rcases mem_append.mp hr with hr | hr
      · obtain ⟨a, ha, heq⟩ := mem_map.mp hr
        cases heq
        refine ⟨first, mem_cons_self, hreach.trans fun r hr => ?_⟩
        rw [mem_singleton.mp hr]
        exact hself.arg (node?_of_lt hfirst) (mem_filter.mp ha).1
      · rcases mem_cons.mp hr with hr | hr
        · cases hr
        · exact ⟨r, mem_cons_of_mem _ hr, hreach⟩
  | case5 seen first rest hlt ih =>
    rcases ih h with h | ⟨hlt, r, hr, hreach⟩
    · exact .inl (mem_cons_of_mem _ h)
    · exact .inr ⟨hlt, r, mem_cons_of_mem _ hr, hreach⟩

/-- What a walk leaves behind: every task of the stack is done, and where a node is listed
that was not due to be listed, its arguments are seen or listed as well. -/
structure WalkCovers (g : Graph) (stack : List Visit) (seen listed : List Nat) : Prop where
  leaves : ∀ id, .leave id ∈ stack → id ∈ listed
  enters : ∀ id, .enter id ∈ stack → id < g.size → id ∈ seen ∨ id ∈ listed
  args : ∀ id node, id ∈ listed → .leave id ∉ stack → g.node? id = some node →
    ∀ a ∈ node.args, a < g.size → a ∈ seen ∨ a ∈ listed

theorem walk_covers (g : Graph) (stack : List Visit) (seen : List Nat) :
    g.WalkCovers stack seen (g.walk stack seen) := by
  fun_induction g.walk stack seen with
  | case1 => constructor <;> simp
  | case2 seen done rest ih =>
    constructor
    · intro id h
      rcases mem_cons.mp h with h | h
      · cases h
        exact mem_cons_self
      · exact mem_cons_of_mem _ (ih.leaves id h)
    · intro id h hlt
      rcases mem_cons.mp h with h | h
      · cases h
      · exact (ih.enters id h hlt).imp_right (mem_cons_of_mem _)
    · intro id node h hstack hnode a ha hlt
      rcases mem_cons.mp h with rfl | h
      · exact absurd mem_cons_self hstack
      · have hrest : Visit.leave id ∉ rest := fun h => hstack (mem_cons_of_mem _ h)
        exact (ih.args id node h hrest hnode a ha hlt).imp_right (mem_cons_of_mem _)
  | case3 seen first rest hfirst hseen ih =>
    constructor
    · intro id h
      rcases mem_cons.mp h with h | h
      · cases h
      · exact ih.leaves id h
    · intro id h hlt
      rcases mem_cons.mp h with h | h
      · cases h
        exact .inl hseen
      · exact ih.enters id h hlt
    · intro id node h hstack
      exact ih.args id node h fun h => hstack (mem_cons_of_mem _ h)
  | case4 seen first rest hfirst hseen ih =>
    have hlisted := ih.leaves first (mem_append_right _ mem_cons_self)
    generalize g.walk _ (first :: seen) = listed at ih hlisted
    -- What was seen on the way is what was seen before, or the node that is entered here.
    have hsplit : ∀ a, a ∈ first :: seen ∨ a ∈ listed → a ∈ seen ∨ a ∈ listed := by
      rintro a (h | h)
      · rcases mem_cons.mp h with rfl | h
        · exact .inr hlisted
        · exact .inl h
      · exact .inr h
    constructor
    · intro id h
      rcases mem_cons.mp h with h | h
      · cases h
      · exact ih.leaves id (mem_append_right _ (mem_cons_of_mem _ h))
    · intro id h hlt
      rcases mem_cons.mp h with h | h
      · cases h
        exact .inr hlisted
      · exact hsplit id
          (ih.enters id (mem_append_right _ (mem_cons_of_mem _ h)) hlt)
    · intro id node h hstack hnode a ha hlt
      apply hsplit a
      by_cases hid : id = first
      · subst hid
        cases (node?_of_lt hfirst).symm.trans hnode
        by_cases hmem : a ∈ id :: seen
        · exact .inl hmem
        · exact ih.enters a (mem_append_left _ (mem_map_of_mem
            (mem_filter.mpr ⟨ha, by simpa using hmem⟩))) hlt
      · refine ih.args id node h ?_ hnode a ha hlt
        intro hmem
        rcases mem_append.mp hmem with hmem | hmem
        · simp at hmem
        · rcases mem_cons.mp hmem with hmem | hmem
          · cases hmem
            exact hid rfl
          · exact hstack (mem_cons_of_mem _ hmem)
  | case5 seen first rest hfirst ih =>
    constructor
    · intro id h
      rcases mem_cons.mp h with h | h
      · cases h
      · exact ih.leaves id h
    · intro id h hlt
      rcases mem_cons.mp h with h | h
      · cases h
        exact absurd hlt hfirst
      · exact ih.enters id h hlt
    · intro id node h hstack
      exact ih.args id node h fun h => hstack (mem_cons_of_mem _ h)

/-- The walk from some roots lists the nodes that the roots reach. -/
theorem mem_postOrder_iff : id ∈ g.postOrder roots ↔ g.Reachable roots id ∧ id < g.size := by
  have hcovers := g.walk_covers (roots.map .enter) []
  have hnone : ∀ id, Visit.leave id ∉ roots.map Visit.enter := by simp
  constructor
  · intro h
    rcases reachable_of_mem_walk h with h | ⟨hlt, r, hr, hreach⟩
    · exact absurd h (hnone id)
    · refine ⟨hreach.mono ?_, hlt⟩
      intro r' hr'
      rw [mem_singleton.mp hr']
      simpa using hr
  · rintro ⟨hreach, hlt⟩
    induction hreach with
    | root hmem =>
      exact (hcovers.enters _ (mem_map_of_mem hmem) hlt).resolve_left not_mem_nil
    | @arg id a node hid hnode ha ih =>
      have hid := ih (node?_isSome_iff.mp (by rw [hnode]; rfl))
      exact (hcovers.args id node hid (hnone id) hnode a ha hlt).resolve_left not_mem_nil

end Walk

/-! ## Graphs that agree -/

/-- Two graphs hold the same nodes at the ids that some roots reach. -/
def AgreesFrom (g g' : Graph) (roots : List Nat) : Prop :=
  ∀ id, g.Reachable roots id → g.node? id = g'.node? id

namespace AgreesFrom

variable {g g' : Graph} {roots roots' : List Nat}

theorem refl (g : Graph) (roots : List Nat) : g.AgreesFrom g roots :=
  fun _ _ => rfl

theorem of_reachable (h : g.AgreesFrom g' roots) (hroots : ∀ r ∈ roots', g.Reachable roots r) :
    g.AgreesFrom g' roots' :=
  fun id hid => h id (hid.trans hroots)

end AgreesFrom

/-- Graphs that agree from the ids on a stack are walked alike. -/
theorem walk_congr {g' : Graph} {stack : List Visit} {seen : List Nat}
    (h : ∀ r, .enter r ∈ stack → g.AgreesFrom g' [r]) : g.walk stack seen = g'.walk stack seen := by
  have hself : ∀ r, g.Reachable [r] r := fun r => .root (mem_singleton.mpr rfl)
  fun_induction g.walk stack seen with
  | case1 => simp [walk]
  | case2 seen done rest ih => rw [walk, ih fun r hr => h r (mem_cons_of_mem _ hr)]
  | case3 seen first rest hfirst hseen ih =>
    have hnode := h first mem_cons_self first (hself first)
    have hfirst' : first < g'.size := by
      rw [← node?_isSome_iff, ← hnode, node?_isSome_iff]
      exact hfirst
    rw [walk, dif_pos hfirst', if_pos hseen, ih fun r hr => h r (mem_cons_of_mem _ hr)]
  | case4 seen first rest hfirst hseen ih =>
    have hnode := h first mem_cons_self first (hself first)
    have hfirst' : first < g'.size := by
      rw [← node?_isSome_iff, ← hnode, node?_isSome_iff]
      exact hfirst
    have hargs : g.nodes[first] = g'.nodes[first] := by
      rw [node?_of_lt hfirst, node?_of_lt hfirst'] at hnode
      exact Option.some.inj hnode
    conv => rhs; rw [walk, dif_pos hfirst', if_neg hseen, ← hargs]
    apply ih
    intro r hr
    rcases mem_append.mp hr with hr | hr
    · obtain ⟨a, ha, heq⟩ := mem_map.mp hr
      cases heq
      refine (h first mem_cons_self).of_reachable ?_
      intro r hr
      rw [mem_singleton.mp hr]
      exact (hself first).arg (node?_of_lt hfirst) (mem_filter.mp ha).1
    · rcases mem_cons.mp hr with hr | hr
      · cases hr
      · exact h r (mem_cons_of_mem _ hr)
  | case5 seen first rest hfirst ih =>
    have hnode := h first mem_cons_self first (hself first)
    have hfirst' : ¬first < g'.size := by
      rw [← node?_isSome_iff, ← hnode, node?_isSome_iff]
      exact hfirst
    conv => rhs; rw [walk, dif_neg hfirst']
    exact ih fun r hr => h r (mem_cons_of_mem _ hr)

theorem postOrder_congr {g' : Graph} (h : g.AgreesFrom g' roots) :
    g.postOrder roots = g'.postOrder roots := by
  apply walk_congr
  intro r hr
  refine h.of_reachable ?_
  intro r' hr'
  rw [mem_singleton.mp hr']
  exact .root (by simpa using hr)

end Graph
end Shading
