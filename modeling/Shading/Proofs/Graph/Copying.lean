import Mathlib
import Shading.Proofs.Graph.Order
import Shading.Proofs.Graph.Unfold

/-!
# Copies of well-formed graphs

Copying from a well-formed graph never fails: the walk lists arguments before their users, so
they have been copied when a call is.  A copy that is extended root by root holds one node for
each node that it was asked for, however many of the roots share it.

Main definitions:

- `Graph.Copy.Consistent` says that a copy is well formed and stands for its source, and
  `Graph.Copy.Sound` that it has one node for each id in its map.
- `Graph.Copy.Grows` says what copying does to a copy.

Main results:

- Theorem `Graph.Copy.nodes_copies`: nodes in the order of a walk are copied, each once.
- Theorem `Graph.Copy.root_copies`: what a root reaches is copied.
- Theorem `Graph.Copy.copies_what_is_missing`: and only what the map does not lead to, with the
  same expressions, whatever copy it is added to.
-/

namespace Shading

open List
namespace Graph

variable {g source : Graph} {node : Node} {id : Nat}

/-! ## Well-formed graphs -/

/-- A node that reads nodes that are there can be appended. -/
theorem push_of_args_lt (h : ∀ a ∈ node.args, a < g.size) :
    g.push node = .ok (g.size, g.append node) := by
  obtain ⟨op, t⟩ := node
  unfold push
  cases op with
  | call name args =>
    have hfound : args.find? (fun a => decide (g.size ≤ a)) = none := by
      apply find?_eq_none.mpr
      intro a ha
      simpa using h a ha
    dsimp only
    rw [hfound]
  | _ => rfl

theorem size_append (g : Graph) (node : Node) : (g.append node).size = g.size + 1 :=
  Array.size_push node

theorem WellFormed.append (hg : g.WellFormed) (h : ∀ a ∈ node.args, a < g.size) :
    (g.append node).WellFormed := by
  intro id found hfound
  rw [node?_append] at hfound
  split at hfound
  · rename_i hid
    cases hfound
    rw [hid]
    exact h
  · exact hg id found hfound

/-- From nodes of a well-formed graph only nodes are reached. -/
theorem WellFormed.lt_size_of_reachable (hg : g.WellFormed) {roots : List Nat}
    (hroots : ∀ r ∈ roots, r < g.size) (h : g.Reachable roots id) : id < g.size := by
  induction h with
  | root hmem => exact hroots _ hmem
  | arg _ hnode ha ih => exact Nat.lt_trans (hg _ _ hnode _ ha) ih

namespace Copy

variable {c c' : Copy}

/-! ## Sound copies -/

theorem contains_insert {map : CopyMap} {key value other : Nat} :
    (map.insert key value).contains other ↔ key = other ∨ map.contains other := by
  unfold OrderedMap.contains
  rw [OrderedMap.find?_insert (fun a b h₁ h₂ => by omega)]
  split <;> simp_all

/-- A copy of nodes of a graph that is well formed and has the same expressions. -/
structure Consistent (source : Graph) (c : Copy) : Prop where
  wellFormed : c.graph.WellFormed
  faithful : Faithful source c
  bound : ∀ id copied, c.map.find? id = some copied → copied < c.graph.size

/-- A copy of a part of a graph, with one node for each id that was copied. -/
structure Sound (source : Graph) (c : Copy) : Prop extends Consistent source c where
  count : Set.encard {id | c.map.contains id} = c.graph.size

theorem sound_empty (source : Graph) : Sound source ⟨Graph.empty, OrderedMap.empty⟩ where
  wellFormed := fun _ _ h => by cases h
  faithful := faithful_empty source
  bound := fun _ _ h => by cases h
  count := by
    have hnone : {id | (OrderedMap.empty : CopyMap).contains id} = ∅ := by
      ext id
      simp [OrderedMap.contains, OrderedMap.find?, OrderedMap.empty]
    rw [hnone, Set.encard_empty]
    rfl

/-- What copying does: entries stay, and one node is appended for each id that is new. -/
structure Grows (c c' : Copy) : Prop where
  entries : ∀ id copied, c.map.find? id = some copied → c'.map.find? id = some copied
  nodes : ∃ added : Array Node, c'.graph.nodes = c.graph.nodes ++ added ∧
    Set.encard {id | c'.map.contains id ∧ ¬c.map.contains id} = added.size

namespace Grows

theorem refl (c : Copy) : c.Grows c where
  entries := fun _ _ h => h
  nodes := ⟨#[], by simp⟩

theorem contains (h : c.Grows c') (hid : c.map.contains id) : c'.map.contains id := by
  obtain ⟨copied, hfind⟩ := Option.isSome_iff_exists.mp hid
  exact Option.isSome_iff_exists.mpr ⟨copied, h.entries id copied hfind⟩

theorem extends_graph (h : c.Grows c') : c.graph.Extends c'.graph := by
  intro id node hnode
  obtain ⟨added, hnodes, -⟩ := h.nodes
  unfold Graph.node? at hnode ⊢
  rw [hnodes, Array.getElem?_append_left (lt_size_of_node? hnode), hnode]

/-- A node that is copied first is one more node. -/
theorem of_push {copy : Node} (hfresh : ¬c.map.contains id)
    (h : Grows ⟨c.graph.append copy, c.map.insert id c.graph.size⟩ c') : c.Grows c' where
  entries := by
    intro other copied hfind
    apply h.entries
    rw [OrderedMap.find?_insert (fun a b h₁ h₂ => by omega), if_neg, hfind]
    rintro rfl
    exact hfresh (Option.isSome_iff_exists.mpr ⟨copied, hfind⟩)
  nodes := by
    obtain ⟨added, hnodes, hcount⟩ := h.nodes
    have hid : c'.map.contains id := h.contains (contains_insert.mpr (.inl rfl))
    have hids : {other | c'.map.contains other ∧ ¬c.map.contains other} = insert id
        {other | c'.map.contains other ∧ ¬(c.map.insert id c.graph.size).contains other} := by
      ext other
      simp only [Set.mem_ofPred_eq, Set.mem_insert_iff, contains_insert]
      by_cases heq : id = other
      · subst heq
        simp [hid, hfresh]
      · simp [heq, Ne.symm heq]
    refine ⟨#[copy] ++ added, by simp [hnodes, append], ?_⟩
    rw [hids, Set.encard_insert_of_notMem, hcount]
    · simp [add_comm]
    · simp [contains_insert]

end Grows

/-- A copy with one node for each id still has one when it has grown. -/
theorem Sound.of_grows (h : Sound source c) (hgrows : c.Grows c') (hc' : Consistent source c') :
    Sound source c' := by
  obtain ⟨added, hnodes, hcount⟩ := hgrows.nodes
  have hids : {id | c'.map.contains id}
      = {id | c.map.contains id} ∪ {id | c'.map.contains id ∧ ¬c.map.contains id} := by
    ext id
    have := @hgrows.contains id
    simp only [Set.mem_ofPred_eq, Set.mem_union]
    tauto
  refine ⟨hc', ?_⟩
  rw [hids, Set.encard_union_eq, h.count, hcount]
  · simp [size, hnodes]
  · rw [Set.disjoint_left]
    exact fun id hid hnew => hnew.2 hid

/-- Arguments that were copied have a place in the copy. -/
theorem args?_of_contains (h : Consistent source c) (args : List Nat)
    (hargs : ∀ a ∈ args, c.map.contains a) :
    ∃ copied, c.args? args = .ok copied ∧ ∀ b ∈ copied, b < c.graph.size := by
  induction args with
  | nil => exact ⟨[], rfl, forall_mem_nil _⟩
  | cons a rest ih =>
    obtain ⟨b, hb⟩ := Option.isSome_iff_exists.mp (hargs a mem_cons_self)
    obtain ⟨bs, hbs, hlt⟩ := ih fun a ha => hargs a (mem_cons_of_mem _ ha)
    refine ⟨b :: bs, ?_, ?_⟩
    · rw [args?, hb, hbs]
      rfl
    · intro b' hb'
      rcases mem_cons.mp hb' with rfl | hb'
      · exact h.bound a b' hb
      · exact hlt b' hb'

/-- A node whose arguments were copied can be copied. -/
theorem node?_of_contains (h : Consistent source c) (hargs : ∀ a ∈ node.args, c.map.contains a) :
    ∃ copy, c.node? node = .ok copy ∧ ∀ b ∈ copy.args, b < c.graph.size := by
  obtain ⟨op, t⟩ := node
  cases op with
  | call name args =>
    obtain ⟨copied, hcopied, hlt⟩ := args?_of_contains h args hargs
    refine ⟨⟨.call name copied, t⟩, ?_, hlt⟩
    unfold Copy.node?
    dsimp only
    rw [hcopied]
    rfl
  | _ => exact ⟨_, rfl, forall_mem_nil _⟩

/-- Copying a node keeps copies consistent. -/
theorem Consistent.push (h : Consistent source c) (hnode : source.node? id = some node)
    {copy : Node} (hcopy : c.node? node = .ok copy) (hargs : ∀ b ∈ copy.args, b < c.graph.size) :
    Consistent source ⟨c.graph.append copy, c.map.insert id c.graph.size⟩ where
  wellFormed := h.wellFormed.append hargs
  faithful := h.faithful.push hnode hcopy
  bound := by
    intro other copied hfind
    rw [OrderedMap.find?_insert (fun a b h₁ h₂ => by omega)] at hfind
    rw [size_append]
    split at hfind
    · cases hfind
      exact Nat.lt_succ_self _
    · exact Nat.lt_succ_of_lt (h.bound other copied hfind)

/-! ## Copying -/

/-- Nodes that are listed after their arguments are copied, each once. -/
theorem nodes_copies (h : Consistent source c) {ids done : List Nat}
    (hready : source.Ready done ids) (hdone : ∀ a ∈ done, c.map.contains a)
    (hids : ∀ id ∈ ids, id < source.size) :
    ∃ c', c.nodes source ids = (c', none) ∧ Consistent source c' ∧ c.Grows c' ∧
      ∀ id, c'.map.contains id ↔ c.map.contains id ∨ id ∈ ids := by
  induction ids generalizing c done with
  | nil => exact ⟨c, rfl, h, .refl c, fun id => by simp⟩
  | cons id rest ih =>
    obtain ⟨-, hargs, hready⟩ := hready
    have hrest : ∀ id ∈ rest, id < source.size := fun id hid =>
      hids id (mem_cons_of_mem _ hid)
    by_cases hcopied : c.map.contains id
    · have hdone' : ∀ a ∈ id :: done, c.map.contains a := by
        intro a ha
        rcases mem_cons.mp ha with rfl | ha
        · exact hcopied
        · exact hdone a ha
      obtain ⟨c', hrun, hc', hgrows, hcontains⟩ := ih h hready hdone' hrest
      refine ⟨c', ?_, hc', hgrows, ?_⟩
      · rw [nodes, if_pos hcopied, hrun]
      · intro other
        rw [hcontains, mem_cons]
        constructor
        · exact fun h => h.imp_right .inr
        · rintro (h | rfl | h)
          · exact .inl h
          · exact .inl hcopied
          · exact .inr h
    · have hnode := node?_of_lt (hids id mem_cons_self)
      obtain ⟨copy, hcopy, hlt⟩ := node?_of_contains h fun a ha =>
        hdone a (hargs _ hnode a ha)
      have hnext := h.push hnode hcopy hlt
      have hdone' : ∀ a ∈ id :: done, (c.map.insert id c.graph.size).contains a := by
        intro a ha
        apply contains_insert.mpr
        rcases mem_cons.mp ha with rfl | ha
        · exact .inl rfl
        · exact .inr (hdone a ha)
      obtain ⟨c', hrun, hc', hgrows, hcontains⟩ := ih hnext hready hdone' hrest
      refine ⟨c', ?_, hc', hgrows.of_push hcopied, ?_⟩
      · rw [nodes, if_neg hcopied, hnode]
        dsimp only
        rw [hcopy]
        dsimp only
        rw [push_of_args_lt hlt]
        exact hrun
      · intro other
        rw [hcontains, contains_insert, mem_cons, eq_comm, or_comm (a := other = id),
          or_assoc]

/-- The subgraph below a node of a well-formed graph is copied. -/
theorem root_copies (hsource : source.WellFormed) (h : Consistent source c) {root : Nat}
    (hroot : root < source.size) :
    ∃ c' copied, Copy.root source c root = (c', .ok copied) ∧ Consistent source c' ∧ c.Grows c' ∧
      ∀ id, c'.map.contains id ↔ c.map.contains id ∨ source.Reachable [root] id := by
  have hroots : ∀ r ∈ [root], r < source.size := by simpa using hroot
  obtain ⟨c', hrun, hc', hgrows, hcontains⟩ :=
    nodes_copies h (postOrder_ready hsource [root]) (forall_mem_nil _)
      fun id hid => (mem_postOrder_iff.mp hid).2
  have hcontains' : ∀ id, c'.map.contains id ↔ c.map.contains id ∨ source.Reachable [root] id := by
    intro id
    rw [hcontains, mem_postOrder_iff]
    exact or_congr_right ⟨And.left, fun h => ⟨h, hsource.lt_size_of_reachable hroots h⟩⟩
  obtain ⟨copied, hfind⟩ := Option.isSome_iff_exists.mp
    ((hcontains' root).mpr (.inr (.root mem_cons_self)))
  refine ⟨c', copied, ?_, hc', hgrows, hcontains'⟩
  unfold Copy.root
  rw [hrun]
  dsimp only
  rw [hfind]

/-! ## Maps of any origin -/

/-- Each entry of the map leads to a node with the same expression. -/
def SameTrees (source : Graph) (c : Copy) : Prop :=
  ∀ id copied, c.map.find? id = some copied →
    ∃ e, source.Unfolds id e ∧ c.graph.Unfolds copied e

theorem SameTrees.consistent (h : SameTrees source c) (hc : c.graph.WellFormed) :
    Consistent source c where
  wellFormed := hc
  faithful := by
    intro id copied e hfind he
    obtain ⟨e', he', hcopied⟩ := h id copied hfind
    rwa [he.unique he']
  bound := by
    intro id copied hfind
    obtain ⟨e, -, hcopied⟩ := h id copied hfind
    exact hcopied.lt_size

theorem Consistent.sameTrees (h : Consistent source c) (hsource : source.WellFormed)
    (hids : ∀ id, c.map.contains id → id < source.size) : SameTrees source c := by
  intro id copied hfind
  obtain ⟨e, he⟩ := hsource.exists_unfolds
    (hids id (Option.isSome_iff_exists.mpr ⟨copied, hfind⟩))
  exact ⟨e, he, h.faithful id copied e hfind he⟩

/-- The subgraph below a node is copied into any graph, with any map whose entries lead to the
same expressions.  Nodes are only appended, one for each that is reached and not in the map. -/
theorem copies_what_is_missing (hsource : source.WellFormed) (hc : c.graph.WellFormed)
    (hmap : SameTrees source c) {root : Nat} (hroot : root < source.size) :
    ∃ c' copied, Copy.root source c root = (c', .ok copied) ∧ c'.graph.WellFormed ∧
      (∃ e, source.Unfolds root e ∧ c'.graph.Unfolds copied e) ∧ SameTrees source c' ∧
      (∀ id copied, c.map.find? id = some copied → c'.map.find? id = some copied) ∧
      (∀ id, c'.map.contains id ↔ c.map.contains id ∨ source.Reachable [root] id) ∧
      ∃ added : Array Node, c'.graph.nodes = c.graph.nodes ++ added ∧
        Set.encard {id | source.Reachable [root] id ∧ ¬c.map.contains id} = added.size := by
  have hroots : ∀ r ∈ [root], r < source.size := by simpa using hroot
  have hconsistent := hmap.consistent hc
  obtain ⟨c', copied, hrun, hc', hgrows, hcontains⟩ := root_copies hsource hconsistent hroot
  obtain ⟨added, hnodes, hcount⟩ := hgrows.nodes
  obtain ⟨e, he⟩ := hsource.exists_unfolds hroot
  have hids : ∀ id, c'.map.contains id → id < source.size := by
    intro id hid
    rcases (hcontains id).mp hid with hold | hreached
    · obtain ⟨copied, hfind⟩ := Option.isSome_iff_exists.mp hold
      obtain ⟨e, he, -⟩ := hmap id copied hfind
      exact he.lt_size
    · exact hsource.lt_size_of_reachable hroots hreached
  refine ⟨c', copied, hrun, hc'.wellFormed, ⟨e, he, root_unfolds hconsistent.faithful hrun he⟩,
    hc'.sameTrees hsource hids, hgrows.entries, hcontains, added, hnodes, ?_⟩
  rw [← hcount]
  congr 1
  ext id
  simp only [Set.mem_ofPred_eq, hcontains]
  tauto

/-- Two equal constants that the map leads to one node are not copied again; the two calls
above them are. -/
theorem copies_missing_calls :
    let source : Graph := ⟨#[⟨.constant (.int 1), .int⟩, ⟨.constant (.int 1), .int⟩,
      ⟨.call "add" [0, 1], .int⟩, ⟨.call "mul" [2, 0], .int⟩]⟩
    let c : Copy := ⟨⟨#[⟨.constant (.int 1), .int⟩]⟩, ⟨[(0, 0), (1, 0)]⟩⟩
    ∃ c' copied, Copy.root source c 3 = (c', .ok copied) ∧
      (∃ e, source.Unfolds 3 e ∧ c'.graph.Unfolds copied e) ∧
      ∃ added : Array Node, c'.graph.nodes = c.graph.nodes ++ added ∧
        Set.encard {id | source.Reachable [3] id ∧ ¬c.map.contains id} = added.size := by
  intro source c
  have hmap : SameTrees source c := by
    intro id copied hfind
    by_cases h0 : id = 0
    · subst h0
      cases hfind
      exact ⟨.constant (.int 1) .int, .constant rfl, .constant rfl⟩
    · by_cases h1 : id = 1
      · subst h1
        cases hfind
        exact ⟨.constant (.int 1) .int, .constant rfl, .constant rfl⟩
      · simp [c, OrderedMap.find?, Ne.symm h0, Ne.symm h1] at hfind
  have hsource : source.WellFormed := wellFormed_of_check rfl
  obtain ⟨c', copied, hrun, -, htrees, -, -, -, hadded⟩ :=
    copies_what_is_missing hsource (wellFormed_of_check rfl) hmap (show 3 < 4 by decide)
  exact ⟨c', copied, hrun, htrees, hadded⟩

end Copy

end Graph
end Shading
