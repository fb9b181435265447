import Mathlib.Tactic.Tauto
import Shading.Proofs.Graph.Unfold

/-!
# The order of a walk

The walk of a graph is a loop over a stack, on which nodes of several levels wait to be entered or
to be listed.  In a well-formed graph it gives the list that a recursion over the arguments gives,
and this list has every node after what it reads.

Main definitions:

- `Graph.visit` lists a node after its arguments, by recursion, and `Graph.depthFirst` all that
  some roots reach.
- `Graph.Ready` says that ids come after those that they rely on.

Main results:

- Theorem `Graph.walk_enter_append`: the loop lists what the recursion lists.
- Theorem `Graph.postOrder_ready`: arguments are listed before their users.
- Theorem `Graph.post_order_is_depth_first` puts this together.
-/

namespace Shading

open List
namespace Graph

variable {g : Graph}

/-! ## The recursion -/

/-- The ids that are listed once a node is: those listed before, then what the node reads that is
not listed, from left to right, then the node.  An id without a node adds nothing. -/
def visit (hg : g.WellFormed) (listed : List Nat) (id : Nat) : List Nat :=
  if id ∈ listed then listed
  else
    match _h : g.node? id with
    | none => listed
    | some node => node.args.attach.foldl (fun listed a => visit hg listed a.1) listed ++ [id]
termination_by id
decreasing_by exact hg id node _h a.1 a.2

/-- The nodes that roots reach, by recursion: roots in order, and arguments before users. -/
def depthFirst (hg : g.WellFormed) (roots : List Nat) : List Nat :=
  roots.foldl (visit hg) []

variable (hg : g.WellFormed) {listed seen ids : List Nat} {id : Nat}

theorem visit_of_mem (h : id ∈ listed) : visit hg listed id = listed := by
  rw [visit, if_pos h]

theorem visit_of_size_le (h : g.size ≤ id) : visit hg listed id = listed := by
  rw [visit]
  split
  · rfl
  · split
    · rfl
    · rename_i hnode
      exact absurd (node?_isSome_iff.mp (by rw [hnode]; rfl)) (Nat.not_lt.mpr h)

theorem visit_of_not_mem (h : id ∉ listed) (hid : id < g.size) :
    visit hg listed id = g.nodes[id].args.foldl (visit hg) listed ++ [id] := by
  rw [visit, if_neg h]
  split
  · rename_i hnode
    cases (node?_of_lt hid).symm.trans hnode
  · rename_i node hnode
    cases (node?_of_lt hid).symm.trans hnode
    simp

theorem walk_enter_skip {rest : List Visit} (h : id < g.size → id ∈ seen) :
    g.walk (.enter id :: rest) seen = g.walk rest seen := by
  rw [walk]
  split
  · rename_i hid
    rw [if_pos (h hid)]
  · rfl

theorem walk_enter_new {rest : List Visit} (hid : id < g.size) (h : id ∉ seen) :
    g.walk (.enter id :: rest) seen =
      g.walk ((g.nodes[id].args.filter fun a => decide (a ∉ id :: seen)).map .enter
        ++ .leave id :: rest) (id :: seen) := by
  rw [walk, dif_pos hid, if_neg h]

/-- The loop lists what the recursion lists, while it works off ids that stand on the stack but for
those that had been seen when they were put there.  Below the bound the ids that were seen are
those that are listed; a node that waits to be listed is above all that is entered for it. -/
theorem walk_enter_append (bound : Nat) {skip : List Nat} (rest : List Visit)
    (hids : ∀ id ∈ ids, id < g.size → id < bound) (hskip : skip ⊆ seen)
    (hseen : ∀ a < g.size, a < bound → (a ∈ seen ↔ a ∈ listed)) :
    ∃ new seen', ids.foldl (visit hg) listed = listed ++ new ∧
      (∀ a, a ∈ seen' ↔ a ∈ seen ∨ a ∈ new) ∧
      g.walk ((ids.filter fun a => decide (a ∉ skip)).map .enter ++ rest) seen =
        new ++ g.walk rest seen' := by
  induction bound using Nat.strongRecOn generalizing ids skip rest listed seen with
  | _ bound ih =>
  induction ids generalizing listed seen with
  | nil => exact ⟨[], seen, by simp, by simp, rfl⟩
  | cons id more ihmore =>
    have hmore : ∀ id ∈ more, id < g.size → id < bound := fun a ha =>
      hids a (mem_cons_of_mem _ ha)
    by_cases hnew : id < g.size ∧ id ∉ seen
    · obtain ⟨hid, hnew⟩ := hnew
      have hbound := hids id mem_cons_self hid
      have hargs : ∀ a ∈ g.nodes[id].args, a < g.size → a < id := fun a ha _ =>
        hg id _ (node?_of_lt hid) a ha
      have hseen' : ∀ a < g.size, a < id → (a ∈ id :: seen ↔ a ∈ listed) := by
        intro a ha hlt
        rw [mem_cons, or_iff_right (Nat.ne_of_lt hlt)]
        exact hseen a ha (Nat.lt_trans hlt hbound)
      obtain ⟨inner, seen₁, hvisit, hseen₁, hwalk⟩ := ih id hbound
        (.leave id :: ((more.filter fun a => decide (a ∉ skip)).map .enter ++ rest))
        hargs (List.Subset.refl _) hseen'
      have hskip₁ : skip ⊆ seen₁ := fun a ha =>
        (hseen₁ a).mpr (.inl (mem_cons_of_mem _ (hskip ha)))
      have hlisted : ∀ a < g.size, a < bound → (a ∈ seen₁ ↔ a ∈ listed ++ inner ++ [id]) := by
        intro a ha hlt
        rw [hseen₁, mem_cons, mem_append, mem_append, mem_singleton,
          hseen a ha hlt]
        tauto
      obtain ⟨new, seen₂, hvisit₂, hseen₂, hwalk₂⟩ := ihmore hmore hskip₁ hlisted
      refine ⟨inner ++ id :: new, seen₂, ?_, ?_, ?_⟩
      · rw [foldl_cons, visit_of_not_mem hg (fun h => hnew ((hseen id hid hbound).mpr h)) hid,
          hvisit, hvisit₂]
        simp
      · intro a
        rw [hseen₂, hseen₁, mem_cons, mem_append, mem_cons]
        tauto
      · rw [filter_cons_of_pos (by simpa using fun h => hnew (hskip h)), map_cons,
          cons_append, walk_enter_new hid hnew, hwalk, walk, hwalk₂, append_assoc]
        rfl
    · have hold : id < g.size → id ∈ seen := by simpa using hnew
      obtain ⟨new, seen', hvisit, hseen', hwalk⟩ := ihmore hmore hskip hseen
      refine ⟨new, seen', ?_, hseen', ?_⟩
      · rw [foldl_cons, ← hvisit]
        by_cases hid : id < g.size
        · rw [visit_of_mem hg ((hseen id hid (hids id mem_cons_self hid)).mp (hold hid))]
        · rw [visit_of_size_le hg (Nat.le_of_not_lt hid)]
      · rw [← hwalk, filter_cons]
        split
        · exact walk_enter_skip hold
        · rfl

theorem postOrder_eq_depthFirst (roots : List Nat) : g.postOrder roots = depthFirst hg roots := by
  have hroots : ∀ id ∈ roots, id < g.size → id < g.size := fun _ _ h => h
  obtain ⟨new, seen', hvisit, -, hwalk⟩ := walk_enter_append hg g.size [] hroots
    (List.Subset.refl []) fun _ _ _ => Iff.refl (_ ∈ [])
  rw [append_nil, walk, append_nil] at hwalk
  rw [depthFirst, hvisit, nil_append, ← hwalk, postOrder, filter_eq_self.mpr (by simp)]

/-! ## The order -/

/-- Each id comes after those that its node reads, and only once; some ids are done before. -/
def Ready (g : Graph) (done : List Nat) : List Nat → Prop
  | [] => True
  | id :: rest => id ∉ done ∧ (∀ node, g.node? id = some node → ∀ a ∈ node.args, a ∈ done) ∧
    Ready g (id :: done) rest

theorem ready_append {done ids more : List Nat} :
    g.Ready done (ids ++ more) ↔ g.Ready done ids ∧ g.Ready (ids.reverse ++ done) more := by
  induction ids generalizing done with
  | nil => simp [Ready]
  | cons id rest ih => simp [Ready, ih, and_assoc]

/-- What visiting some ids does to the ids that are listed. -/
structure Visits (g : Graph) (listed ids listed' : List Nat) : Prop where
  keeps : listed ⊆ listed'
  lists : ∀ id ∈ ids, id < g.size → id ∈ listed'
  below : ∀ a ∈ listed', a ∈ listed ∨ ∃ id ∈ ids, a ≤ id
  ready : g.Ready [] listed → g.Ready [] listed'

theorem Visits.refl (h : ∀ id ∈ ids, id < g.size → id ∈ listed) : g.Visits listed ids listed :=
  ⟨List.Subset.refl _, h, fun _ => .inl, fun h => h⟩

theorem foldl_visits (h : ∀ id ∈ ids, ∀ listed, g.Visits listed [id] (visit hg listed id))
    (listed : List Nat) : g.Visits listed ids (ids.foldl (visit hg) listed) := by
  induction ids generalizing listed with
  | nil => exact .refl (forall_mem_nil _)
  | cons first rest ih =>
    have hfirst := h first mem_cons_self listed
    have hrest := ih (fun id hid => h id (mem_cons_of_mem _ hid)) (visit hg listed first)
    refine ⟨List.Subset.trans hfirst.keeps hrest.keeps, ?_, ?_, hrest.ready ∘ hfirst.ready⟩
    · intro id hid hlt
      rcases mem_cons.mp hid with rfl | hid
      · exact hrest.keeps (hfirst.lists id mem_cons_self hlt)
      · exact hrest.lists id hid hlt
    · intro a ha
      rcases hrest.below a ha with ha | ⟨id, hid, hle⟩
      · exact (hfirst.below a ha).imp_right fun ⟨id, hid, hle⟩ =>
          ⟨id, mem_cons.mpr (.inl (mem_singleton.mp hid)), hle⟩
      · exact .inr ⟨id, mem_cons_of_mem _ hid, hle⟩

theorem visit_visits (id : Nat) (listed : List Nat) :
    g.Visits listed [id] (visit hg listed id) := by
  induction id using Nat.strongRecOn generalizing listed with
  | _ id ih =>
  by_cases hnew : id < g.size ∧ id ∉ listed
  · obtain ⟨hid, hnew⟩ := hnew
    have hargs := hg id _ (node?_of_lt hid)
    have hvisits := foldl_visits hg (fun a ha => ih a (hargs a ha)) listed
    have hbelow : ∀ a ∈ g.nodes[id].args.foldl (visit hg) listed, a ∈ listed ∨ a < id :=
      fun a ha => (hvisits.below a ha).imp_right fun ⟨b, hb, hle⟩ =>
        Nat.lt_of_le_of_lt hle (hargs b hb)
    rw [visit_of_not_mem hg hnew hid]
    refine ⟨fun a ha => mem_append_left _ (hvisits.keeps ha), by simp, fun a ha => ?_,
      fun h => ready_append.mpr ⟨hvisits.ready h, ?_, ?_, trivial⟩⟩
    · rcases mem_append.mp ha with ha | ha
      · exact (hbelow a ha).imp_right fun hlt => ⟨id, mem_cons_self, Nat.le_of_lt hlt⟩
      · exact .inr ⟨id, mem_cons_self, Nat.le_of_eq (mem_singleton.mp ha)⟩
    · intro hmem
      rcases hbelow id (by simpa using hmem) with hmem | hlt
      · exact hnew hmem
      · exact Nat.lt_irrefl id hlt
    · intro node hnode a ha
      cases (node?_of_lt hid).symm.trans hnode
      simpa using hvisits.lists a ha (Nat.lt_trans (hargs a ha) hid)
  · have hold : id < g.size → id ∈ listed := by simpa using hnew
    have heq : visit hg listed id = listed := by
      by_cases hid : id < g.size
      · exact visit_of_mem hg (hold hid)
      · exact visit_of_size_le hg (Nat.le_of_not_lt hid)
    rw [heq]
    exact .refl (by simpa using hold)

/-- The walk from some roots lists every node once, after its arguments. -/
theorem postOrder_ready (hg : g.WellFormed) (roots : List Nat) :
    g.Ready [] (g.postOrder roots) := by
  rw [postOrder_eq_depthFirst hg]
  exact (foldl_visits hg (fun id _ => visit_visits hg id) []).ready trivial

theorem Ready.nodup {done ids : List Nat} (h : g.Ready done ids) :
    ids.Nodup ∧ ∀ id ∈ ids, id ∉ done := by
  induction ids generalizing done with
  | nil => exact ⟨nodup_nil, forall_mem_nil _⟩
  | cons id rest ih =>
    obtain ⟨hnew, -, hrest⟩ := h
    obtain ⟨hnodup, hdone⟩ := ih hrest
    refine ⟨nodup_cons.mpr ⟨fun hmem => hdone id hmem mem_cons_self, hnodup⟩, ?_⟩
    exact forall_mem_cons.mpr
      ⟨hnew, fun a ha hmem => hdone a ha (mem_cons_of_mem _ hmem)⟩

/-- The walk of a well-formed graph gives the list of the recursion.  It holds the nodes that the
roots reach and nothing else, each of them once, and after all that it reads. -/
theorem post_order_is_depth_first (hg : g.WellFormed) (roots : List Nat) :
    g.postOrder roots = depthFirst hg roots ∧
    (∀ id, id ∈ g.postOrder roots ↔ g.Reachable roots id ∧ id < g.size) ∧
    (g.postOrder roots).Nodup ∧
    ∀ front id back, g.postOrder roots = front ++ id :: back →
      ∀ node, g.node? id = some node → ∀ a ∈ node.args, a ∈ front := by
  have hready := postOrder_ready hg roots
  refine ⟨postOrder_eq_depthFirst hg roots, fun id => mem_postOrder_iff, hready.nodup.1, ?_⟩
  intro front id back heq node hnode a ha
  rw [heq, ready_append] at hready
  simpa using hready.2.2.1 node hnode a ha

/-- Two calls that share their argument. -/
def sharedCalls : Graph :=
  ⟨#[⟨.constant (.int 1), .int⟩, ⟨.call "double" [0, 0], .int⟩, ⟨.call "sum" [1, 0], .int⟩]⟩

/-- A root may be repeated, be below another one, or lead to no node. -/
theorem post_order_is_depth_first_shared :
    ∃ hg : sharedCalls.WellFormed, sharedCalls.postOrder [9, 2, 1, 2] = [0, 1, 2] ∧
      depthFirst hg [9, 2, 1, 2] = [0, 1, 2] := by
  have hg : sharedCalls.WellFormed := wellFormed_of_check rfl
  have hwalk : sharedCalls.postOrder [9, 2, 1, 2] = [0, 1, 2] := by cbv
  exact ⟨hg, hwalk, (post_order_is_depth_first hg _).1.symm.trans hwalk⟩

end Graph
end Shading
