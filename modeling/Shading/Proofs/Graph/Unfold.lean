import Mathlib.Data.List.Forall2
import Shading.Proofs.Graph.Reach

/-!
# Expressions of a graph

A node of a graph stands for an expression, in which sharing is undone.  Two graphs may
number their nodes as they like: what a node means is its expression.

Main definitions:

- `Expression` is an expression as a tree, `Expression.fill` puts expressions in the place
  of results that are read.
- `Graph.Unfolds` says which expression a node stands for.

Main results:

- Theorem `Graph.check_eq_ok_iff`: what a check of a graph has found.
- Theorem `Graph.WellFormed.exists_unfolds`: every node of a well-formed graph stands for an
  expression, and by `Graph.Unfolds.unique` for one only.
- Theorem `Graph.Copy.root_unfolds`: the copy of a node stands for the same expression.
-/

namespace Shading

open List

/-! ## Expressions -/

/-- An expression as a tree. -/
inductive Expression
  | constant (value : Value) (type : ValueType)
  | parameter (index : Nat) (type : ValueType)
  | lambdaResult (index : Nat) (type : ValueType)
  | call (name : String) (args : List Expression) (type : ValueType)

namespace Expression

mutual

/-- Puts expressions in the place of the results that are read. -/
def fill (bodies : List Expression) : Expression → Expression
  | .lambdaResult index t => bodies[index]?.getD (.lambdaResult index t)
  | .call name args t => .call name (fillAll bodies args) t
  | .constant value t => .constant value t
  | .parameter index t => .parameter index t

/-- Puts expressions in the place of the results that a row of expressions reads. -/
def fillAll (bodies : List Expression) : List Expression → List Expression
  | [] => []
  | e :: rest => e.fill bodies :: fillAll bodies rest

end

theorem fillAll_eq_map (bodies es : List Expression) :
    fillAll bodies es = es.map (fill bodies) := by
  induction es with
  | nil => rfl
  | cons e rest ih => rw [fillAll, ih, map_cons]

end Expression

namespace Graph

variable {g g' source : Graph} {id : Nat} {node : Node}

/-! ## Building and checking -/

theorem node?_append (g : Graph) (node : Node) (id : Nat) :
    (g.append node).node? id = if id = g.size then some node else g.node? id :=
  Array.getElem?_push

theorem lt_size_of_node? (h : g.node? id = some node) : id < g.size :=
  node?_isSome_iff.mp (by rw [h]; rfl)

/-- All nodes of a graph are nodes of another one, under the same ids. -/
def Extends (g g' : Graph) : Prop :=
  ∀ id node, g.node? id = some node → g'.node? id = some node

theorem Extends.refl (g : Graph) : g.Extends g :=
  fun _ _ h => h

theorem Extends.trans {g'' : Graph} (h : g.Extends g') (h' : g'.Extends g'') : g.Extends g'' :=
  fun id node hnode => h' id node (h id node hnode)

theorem extends_append (g : Graph) (node : Node) : g.Extends (g.append node) := by
  intro id node' hnode
  rw [node?_append, if_neg (Nat.ne_of_lt (lt_size_of_node? hnode))]
  exact hnode

/-- What appending a node with a check has done. -/
theorem push_eq_ok (h : g.push node = .ok (id, g')) :
    id = g.size ∧ g' = g.append node ∧ ∀ a ∈ node.args, a < g.size := by
  obtain ⟨op, t⟩ := node
  unfold push at h
  cases op with
  | call name args =>
    dsimp only at h
    split at h
    · cases h
    · rename_i hfound
      cases h
      refine ⟨rfl, rfl, fun a ha => ?_⟩
      simpa using find?_eq_none.mp hfound a ha
  | _ =>
    cases h
    exact ⟨rfl, rfl, forall_mem_nil _⟩

theorem checkNode_eq_ok_iff :
    checkNode id node = .ok () ↔
      (∀ a ∈ node.args, a < id) ∧ ∀ value, node.op = .constant value →
        value.conformsTo node.type = true := by
  obtain ⟨op, t⟩ := node
  unfold checkNode
  cases op with
  | call name args =>
    dsimp only [Node.args]
    split
    · rename_i a hfound
      have ha : id ≤ a := by simpa using find?_some hfound
      constructor
      · intro h
        cases h
      · rintro ⟨hargs, -⟩
        exact absurd (hargs a (mem_of_find?_eq_some hfound)) (Nat.not_lt.mpr ha)
    · rename_i hfound
      refine ⟨fun _ => ⟨fun a ha => ?_, fun value h => by cases h⟩, fun _ => rfl⟩
      simpa using find?_eq_none.mp hfound a ha
  | constant value =>
    dsimp only [Node.args]
    split
    · rename_i hconforms
      refine ⟨fun _ => ⟨forall_mem_nil _, fun value' h => ?_⟩,
        fun _ => rfl⟩
      cases h
      exact hconforms
    · rename_i hconforms
      constructor
      · intro h
        cases h
      · rintro ⟨-, hvalue⟩
        exact absurd (hvalue value rfl) hconforms
  | _ =>
    exact ⟨fun _ => ⟨forall_mem_nil _, fun value h => by cases h⟩,
      fun _ => rfl⟩

theorem checkNodes_eq_ok_iff {first : Nat} {nodes : List Node} :
    checkNodes first nodes = .ok () ↔
      ∀ k node, nodes[k]? = some node → checkNode (first + k) node = .ok () := by
  induction nodes generalizing first with
  | nil => exact ⟨fun _ k node h => by simp at h, fun _ => rfl⟩
  | cons head rest ih =>
    unfold checkNodes
    cases hhead : checkNode first head with
    | error e =>
      constructor
      · intro h
        cases h
      · intro h
        have := h 0 head rfl
        rw [Nat.add_zero, hhead] at this
        cases this
    | ok =>
      dsimp only
      rw [ih]
      constructor
      · intro h k node hk
        cases k with
        | zero =>
          cases hk
          exact hhead
        | succ k =>
          rw [Nat.add_comm k 1, ← Nat.add_assoc]
          exact h k node hk
      · intro h k node hk
        have := h (k + 1) node hk
        rwa [Nat.add_comm k 1, ← Nat.add_assoc] at this

/-- A graph passes the check if all its nodes do. -/
theorem check_eq_ok_iff :
    g.check = .ok () ↔ ∀ id node, g.node? id = some node → checkNode id node = .ok () := by
  unfold check
  rw [checkNodes_eq_ok_iff]
  simp only [Nat.zero_add, Array.getElem?_toList]
  rfl

/-- A graph that passes the check is well formed. -/
theorem wellFormed_of_check (h : g.check = .ok ()) : g.WellFormed :=
  fun id node hnode => (checkNode_eq_ok_iff.mp (check_eq_ok_iff.mp h id node hnode)).1

/-! ## Unfolding -/

/-- The expression that a node stands for. -/
inductive Unfolds (g : Graph) : Nat → Expression → Prop
  | constant {id : Nat} {value : Value} {t : ValueType}
      (node : g.node? id = some ⟨.constant value, t⟩) : Unfolds g id (.constant value t)
  | parameter {id index : Nat} {t : ValueType}
      (node : g.node? id = some ⟨.parameter index, t⟩) : Unfolds g id (.parameter index t)
  | lambdaResult {id index : Nat} {t : ValueType}
      (node : g.node? id = some ⟨.lambdaResult index, t⟩) : Unfolds g id (.lambdaResult index t)
  | call {id : Nat} {name : String} {args : List Nat} {t : ValueType} {es : List Expression}
      (node : g.node? id = some ⟨.call name args, t⟩) (length_eq : args.length = es.length)
      (each : ∀ {k a : Nat} {e : Expression}, args[k]? = some a → es[k]? = some e →
        Unfolds g a e) :
      Unfolds g id (.call name es t)

/-- What stands for an expression is a node. -/
theorem Unfolds.lt_size {e : Expression} (h : g.Unfolds id e) : id < g.size := by
  cases h <;> exact lt_size_of_node? ‹_›

/-- A node stands for one expression. -/
theorem Unfolds.unique {e e' : Expression} (h : g.Unfolds id e) (h' : g.Unfolds id e') :
    e = e' := by
  induction h generalizing e' with
  | constant node =>
    cases h' <;> cases node.symm.trans ‹_›
    rfl
  | parameter node =>
    cases h' <;> cases node.symm.trans ‹_›
    rfl
  | lambdaResult node =>
    cases h' <;> cases node.symm.trans ‹_›
    rfl
  | @call id name args t es node length_eq each ih =>
    cases h' with
    | constant node' | parameter node' | lambdaResult node' => cases node.symm.trans node'
    | @call _ _ _ _ es' node' length_eq' each' =>
      cases node.symm.trans node'
      congr 1
      refine ext_getElem (length_eq.symm.trans length_eq') fun k hk hk' => ?_
      have ha : args[k]? = some args[k] := getElem?_eq_getElem (length_eq ▸ hk)
      exact ih ha (getElem?_eq_getElem hk) (each' ha (getElem?_eq_getElem hk'))

theorem Unfolds.of_extends {e : Expression} (h : g.Unfolds id e) (hg : g.Extends g') :
    g'.Unfolds id e := by
  induction h with
  | constant node => exact .constant (hg _ _ node)
  | parameter node => exact .parameter (hg _ _ node)
  | lambdaResult node => exact .lambdaResult (hg _ _ node)
  | call node length_eq _ ih => exact .call (hg _ _ node) length_eq fun ha he => ih ha he

/-- If every member of a list has a partner, there is a list of partners. -/
theorem exists_partners {α β : Type} {R : α → β → Prop} {xs : List α} (h : ∀ x ∈ xs, ∃ y, R x y) :
    ∃ ys : List β, xs.length = ys.length ∧
      ∀ {k : Nat} {x : α} {y : β}, xs[k]? = some x → ys[k]? = some y → R x y := by
  have hys : ∃ ys : List β, Forall₂ R xs ys := by
    induction xs with
    | nil => exact ⟨[], .nil⟩
    | cons x rest ih =>
      obtain ⟨y, hy⟩ := h x mem_cons_self
      obtain ⟨ys, hys⟩ := ih fun x' hx' => h x' (mem_cons_of_mem x hx')
      exact ⟨y :: ys, .cons hy hys⟩
  obtain ⟨ys, hys⟩ := hys
  refine ⟨ys, hys.length_eq, fun hx hy => ?_⟩
  obtain ⟨hk, rfl⟩ := List.getElem?_eq_some_iff.mp hx
  obtain ⟨hk', rfl⟩ := List.getElem?_eq_some_iff.mp hy
  exact hys.get hk hk'

/-- Every node of a well-formed graph stands for an expression. -/
theorem WellFormed.exists_unfolds (h : g.WellFormed) (hid : id < g.size) : ∃ e, g.Unfolds id e := by
  induction id using Nat.strongRecOn with
  | ind id ih =>
    have hnode := node?_of_lt hid
    generalize g.nodes[id] = node at hnode
    obtain ⟨op, t⟩ := node
    cases op with
    | constant value => exact ⟨_, .constant hnode⟩
    | parameter index => exact ⟨_, .parameter hnode⟩
    | lambdaResult index => exact ⟨_, .lambdaResult hnode⟩
    | call name args =>
      have hargs : ∀ a ∈ args, ∃ e, g.Unfolds a e := by
        intro a ha
        have hlt : a < id := h id _ hnode a ha
        exact ih a hlt (Nat.lt_trans hlt hid)
      obtain ⟨es, hlength, heach⟩ := exists_partners hargs
      exact ⟨_, .call hnode hlength heach⟩

/-! ## Copies -/

namespace Copy

variable {c c' : Copy}

/-- Copies stand for what the nodes stand for of which they are copies. -/
def Faithful (source : Graph) (c : Copy) : Prop :=
  ∀ id copied e, c.map.find? id = some copied → source.Unfolds id e → c.graph.Unfolds copied e

theorem faithful_empty (source : Graph) : Faithful source ⟨Graph.empty, OrderedMap.empty⟩ :=
  fun _ _ _ h => by cases h

theorem args?_eq_ok {args copied : List Nat} (h : c.args? args = .ok copied) :
    Forall₂ (fun a b => c.map.find? a = some b) args copied := by
  induction args generalizing copied with
  | nil =>
    cases h
    exact .nil
  | cons a rest ih =>
    unfold args? at h
    split at h
    · cases h
    · rename_i b hb
      cases hrest : c.args? rest with
      | error e =>
        rw [hrest] at h
        cases h
      | ok bs =>
        rw [hrest] at h
        cases h
        exact .cons hb (ih hrest)

/-- Copying one node keeps copies faithful. -/
theorem Faithful.push (h : Faithful source c) (hnode : source.node? id = some node) {copy : Node}
    (hcopy : c.node? node = .ok copy) :
    Faithful source ⟨c.graph.append copy, c.map.insert id c.graph.size⟩ := by
  have hextends := extends_append c.graph copy
  have hplace : (c.graph.append copy).node? c.graph.size = some copy := by
    rw [node?_append, if_pos rfl]
  intro id' copied e hfind he
  rw [OrderedMap.find?_insert (fun a b => by omega)] at hfind
  split at hfind
  · rename_i heq
    cases heq
    cases hfind
    cases he with
    | constant node' | parameter node' | lambdaResult node' =>
      cases hnode.symm.trans node'
      cases hcopy
      first
      | exact .constant hplace
      | exact .parameter hplace
      | exact .lambdaResult hplace
    | @call _ name args t es node' length_eq each =>
      cases hnode.symm.trans node'
      unfold Copy.node? at hcopy
      dsimp only at hcopy
      cases hargs : c.args? args with
      | error e =>
        rw [hargs] at hcopy
        cases hcopy
      | ok copies =>
        rw [hargs] at hcopy
        cases hcopy
        have hcopies := args?_eq_ok hargs
        refine .call hplace (hcopies.length_eq.symm.trans length_eq) fun {k b e} hb he => ?_
        obtain ⟨hk, rfl⟩ := List.getElem?_eq_some_iff.mp hb
        have hk' : k < args.length := hcopies.length_eq ▸ hk
        have ha : args[k]? = some args[k] := List.getElem?_eq_getElem hk'
        exact (h _ _ _ (hcopies.get hk' hk) (each ha he)).of_extends hextends
  · exact (h id' copied e hfind he).of_extends hextends

theorem nodes_faithful (h : Faithful source c) {ids : List Nat}
    (hrun : c.nodes source ids = (c', none)) : Faithful source c' := by
  induction ids generalizing c with
  | nil =>
    cases hrun
    exact h
  | cons id rest ih =>
    unfold nodes at hrun
    split at hrun
    · exact ih h hrun
    · split at hrun
      · cases hrun
      · rename_i node hnode
        split at hrun
        · cases hrun
        · rename_i copy hcopy
          split at hrun
          · cases hrun
          · rename_i place graph hpush
            obtain ⟨rfl, rfl, -⟩ := push_eq_ok hpush
            exact ih (h.push hnode hcopy) hrun

/-- The copy of a node stands for the same expression. -/
theorem root_unfolds {root copied : Nat} (h : Faithful source c)
    (hrun : Copy.root source c root = (c', .ok copied)) {e : Expression}
    (he : source.Unfolds root e) : c'.graph.Unfolds copied e := by
  unfold Copy.root at hrun
  split at hrun
  · cases hrun
  · rename_i c'' hnodes
    split at hrun
    · rename_i found hfind
      cases hrun
      exact nodes_faithful h hnodes root copied e hfind he
    · cases hrun

end Copy

end Graph

end Shading
