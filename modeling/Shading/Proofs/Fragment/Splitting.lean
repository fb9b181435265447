import Mathlib
import Shading.Proofs.Fragment.Parameters
import Shading.Proofs.Graph.Unfold

/-!
# Splitting a distribution loses nothing

A distribution is split into the tree of its building blocks and the values that they
read.  Three numberings of nodes are involved: the material's, the main fragment's, and
that of every auxiliary fragment.  They are related through the expressions that nodes
stand for.

Main definitions:

- `Graph.valueUses` lists the values that the building blocks below a node read, and
  `firstUses` the distinct ones in the order of their first use.
- `Distribution.Stands` says that a node of the main fragment stands for a node of the
  material, up to the values that auxiliary fragments compute.
- `Distribution.Split.Sound` is the invariant of splitting.

Main results:

- Theorem `Distribution.split_sound`: splitting keeps the invariant.
- Theorem `Distribution.splitting_loses_nothing` draws the conclusions.
-/

namespace Shading

open List

/-! ## Uses of values -/

namespace Graph

mutual

/-- The values that the building blocks at and below a node read, constants left out: in the
order in which they are read, and as often. -/
def valueUses (g : Graph) (id : Nat) : List Nat :=
  match g.node? id with
  | some node => argumentUses g id node.args
  | none => []
termination_by (id, 1, 0)

/-- The values that are read through the arguments of a building block. -/
def argumentUses (g : Graph) (bound : Nat) (args : List Nat) : List Nat :=
  match args with
  | [] => []
  | a :: rest =>
    (if _h : a < bound then
      match g.node? a with
      | some node => if node.type = .bsdf then valueUses g a else if g.isConstant a then [] else [a]
      | none => []
    else []) ++ argumentUses g bound rest
termination_by (bound, 0, args.length)

end

end Graph

/-- The distinct members of a list in the order of their first occurrence. -/
def firstUses (uses : List Nat) : List Nat :=
  uses.foldl (fun seen a => if a ∈ seen then seen else seen ++ [a]) []

theorem firstUses_concat (uses : List Nat) (a : Nat) :
    firstUses (uses ++ [a])
      = if a ∈ firstUses uses then firstUses uses else firstUses uses ++ [a] := by
  rw [firstUses, foldl_append]
  rfl

@[simp] theorem mem_firstUses {uses : List Nat} {a : Nat} : a ∈ firstUses uses ↔ a ∈ uses := by
  induction uses using List.reverseRecOn with
  | nil => rfl
  | append_singleton uses b ih =>
    rw [firstUses_concat, mem_append, mem_singleton, ← ih]
    by_cases hb : b ∈ firstUses uses
    · rw [if_pos hb]
      exact ⟨Or.inl, fun h => h.elim id fun hab => hab ▸ hb⟩
    · rw [if_neg hb, mem_append, mem_singleton]

theorem nodup_firstUses (uses : List Nat) : (firstUses uses).Nodup := by
  induction uses using List.reverseRecOn with
  | nil => exact nodup_nil
  | append_singleton uses b ih =>
    rw [firstUses_concat]
    split
    · exact ih
    · rename_i hb
      refine nodup_append.mpr ⟨ih, by simp, ?_⟩
      rintro a ha _ hb' rfl
      exact hb (mem_singleton.mp hb' ▸ ha)

theorem firstUses_grows (uses more : List Nat) : firstUses uses <+: firstUses (uses ++ more) := by
  induction more using List.reverseRecOn with
  | nil => simp only [append_nil, prefix_refl]
  | append_singleton more b ih =>
    rw [← append_assoc, firstUses_concat]
    split
    · exact ih
    · exact ih.trans (prefix_append _ _)

/-- Uses of what was used before add nothing. -/
theorem firstUses_append_of_subset {uses more : List Nat} (h : ∀ a ∈ more, a ∈ uses) :
    firstUses (uses ++ more) = firstUses uses := by
  induction more using List.reverseRecOn with
  | nil => rw [append_nil]
  | append_singleton more b ih =>
    have hmore := ih fun a ha => h a (mem_append_left _ ha)
    have hb : b ∈ firstUses uses := mem_firstUses.mpr (h b (by simp))
    rw [← append_assoc, firstUses_concat, hmore, if_pos hb]

/-- The body of a fragment is an expression. -/
def Fragment.HasBody (f : Fragment) (e : Expression) : Prop :=
  ∃ body, f.roots = some (.single body) ∧ f.graph.Unfolds body e

theorem Fragment.HasBody.unique {f : Fragment} {e e' : Expression} (h : f.HasBody e)
    (h' : f.HasBody e') : e = e' := by
  obtain ⟨body, hroots, he⟩ := h
  obtain ⟨body', hroots', he'⟩ := h'
  cases hroots.symm.trans hroots'
  exact he.unique he'

namespace Distribution

/-! ## Nodes that stand for nodes -/

/-- A node of the main graph stands for a node of the material's graph: it is the same
constant, or reads the result of the fragment for the node, or is the same call of nodes
that stand for the arguments.  Fragment `i` is the one for node `values[i]`. -/
inductive Stands (g : Graph) (values : List Nat) (main : Graph) : (id place : Nat) → Prop
  | constant {id place : Nat} {value : Value} {t : ValueType}
      (node : g.node? id = some ⟨.constant value, t⟩)
      (copy : main.node? place = some ⟨.constant value, t⟩) : Stands g values main id place
  | value {id place index : Nat} {node : Node} (node_eq : g.node? id = some node)
      (index_eq : values[index]? = some id)
      (copy : main.node? place = some ⟨.lambdaResult index, node.type⟩) :
      Stands g values main id place
  | block {id place : Nat} {name : String} {args copies : List Nat} {t : ValueType}
      (node : g.node? id = some ⟨.call name args, t⟩)
      (copy : main.node? place = some ⟨.call name copies, t⟩)
      (length_eq : args.length = copies.length)
      (each : ∀ {k a b : Nat}, args[k]? = some a → copies[k]? = some b →
        Stands g values main a b) :
      Stands g values main id place

namespace Stands

variable {g main main' : Graph} {values values' : List Nat} {id place : Nat}

theorem mono (h : Stands g values main id place) (hmain : main.Extends main')
    (hvalues : values <+: values') : Stands g values' main' id place := by
  induction h with
  | constant node copy => exact .constant node (hmain _ _ copy)
  | value node_eq index_eq copy =>
    obtain ⟨more, rfl⟩ := hvalues
    have hlt := (List.getElem?_eq_some_iff.mp index_eq).1
    exact .value node_eq ((getElem?_append_left hlt).trans index_eq) (hmain _ _ copy)
  | block node copy length_eq _ ih =>
    exact .block node (hmain _ _ copy) length_eq fun ha hb => ih ha hb

theorem lt_size (h : Stands g values main id place) : place < main.size := by
  cases h with
  | constant _ copy => exact Graph.lt_size_of_node? copy
  | value _ _ copy => exact Graph.lt_size_of_node? copy
  | block _ copy => exact Graph.lt_size_of_node? copy

/-- With the values put in their places, a node of the main graph is the expression of the
node that it stands for. -/
theorem unfolds (h : Stands g values main id place) {bodies : List Expression}
    (hbodies : Forall₂ g.Unfolds values bodies) {e : Expression} (he : g.Unfolds id e) :
    ∃ tree, main.Unfolds place tree ∧ tree.fill bodies = e := by
  induction h generalizing e with
  | constant node copy =>
    cases he.unique (.constant node)
    exact ⟨_, .constant copy, rfl⟩
  | @value id place index node node_eq index_eq copy =>
    obtain ⟨hlt, rfl⟩ := List.getElem?_eq_some_iff.mp index_eq
    have hlt' : index < bodies.length := hbodies.length_eq ▸ hlt
    have hbody : g.Unfolds values[index] bodies[index] := hbodies.get hlt hlt'
    refine ⟨_, .lambdaResult copy, ?_⟩
    rw [Expression.fill, List.getElem?_eq_getElem hlt', Option.getD_some]
    exact hbody.unique he
  | @block id place name args copies t node copy length_eq each ih =>
    cases he with
    | constant node' | parameter node' | lambdaResult node' => cases node.symm.trans node'
    | @call _ _ _ _ es node' length_eq' each' =>
      cases node.symm.trans node'
      have hparts : ∀ part ∈ copies.zip es,
          ∃ tree, main.Unfolds part.1 tree ∧ tree.fill bodies = part.2 := by
        rintro ⟨b, e⟩ hpart
        obtain ⟨k, hk⟩ := mem_iff_getElem?.mp hpart
        obtain ⟨hb, he⟩ := List.getElem?_zip_eq_some.mp hk
        have hlt := (List.getElem?_eq_some_iff.mp hb).1
        have ha : args[k]? = some args[k] := List.getElem?_eq_getElem (length_eq ▸ hlt)
        exact ih ha hb (each' ha he)
      obtain ⟨trees, hlength, htrees⟩ := Graph.exists_partners hparts
      have hes : es.length = trees.length := by
        rw [← hlength, length_zip]
        omega
      have hcopies : copies.length = trees.length := by omega
      have hzip : ∀ {k b : Nat} {e : Expression}, copies[k]? = some b → es[k]? = some e →
          (copies.zip es)[k]? = some (b, e) :=
        fun hb he => List.getElem?_zip_eq_some.mpr ⟨hb, he⟩
      refine ⟨_, .call copy hcopies fun {k b tree} hb htree => ?_, ?_⟩
      · have hlt := (List.getElem?_eq_some_iff.mp htree).1
        exact (htrees (hzip hb (List.getElem?_eq_getElem (hes ▸ hlt))) htree).1
      · rw [Expression.fill, Expression.fillAll_eq_map]
        congr 1
        refine ext_getElem (by rw [length_map, hes]) fun k hk hk' => ?_
        rw [length_map] at hk
        rw [getElem_map]
        exact (htrees (hzip (List.getElem?_eq_getElem (hcopies ▸ hk))
          (List.getElem?_eq_getElem hk')) (List.getElem?_eq_getElem hk)).2

end Stands

/-! ## The invariant of splitting -/

/-- A fragment computes a node of a material: it has the parameters of the material, and its
body is the expression of the node. -/
structure Computes (m : Material) (f : Fragment) (id : Nat) : Prop where
  parameters : f.parameters = m.parameters
  body : ∃ e, f.HasBody e ∧ m.graph.Unfolds id e

theorem unfolds_of_computes {m : Material} {aux : List Fragment} {values : List Nat}
    {bodies : List Expression} (h : Forall₂ (Computes m) aux values)
    (hbodies : Forall₂ Fragment.HasBody aux bodies) : Forall₂ m.graph.Unfolds values bodies := by
  induction h generalizing bodies with
  | nil =>
    cases hbodies
    exact .nil
  | cons hcomputes _ ih =>
    cases hbodies with
    | cons hbody hrest =>
      obtain ⟨e, he, hunfolds⟩ := hcomputes.body
      rw [hbody.unique he]
      exact .cons hunfolds (ih hrest)

namespace Split

/-- What holds while a distribution is split, when some values have been used.  The nodes of
the main graph pass the check and read results that there are; the auxiliary fragments are
those of the values in the order of their first use; and nodes that were noted are done. -/
structure Sound (m : Material) (s : Split) (uses : List Nat) : Prop where
  checked : ∀ id node, s.graph.node? id = some node → Graph.checkNode id node = .ok ()
  results : ∀ id index t, s.graph.node? id = some ⟨.lambdaResult index, t⟩ → index < s.aux.length
  aux : Forall₂ (Computes m) s.aux (firstUses uses)
  auxOf : ∀ id index, s.auxOf.find? id = some index ↔ (firstUses uses)[index]? = some id
  mainOf : ∀ id place, s.mainOf.find? id = some place →
    Stands m.graph (firstUses uses) s.graph id place ∧ ∀ a ∈ m.graph.valueUses id, a ∈ uses

variable {m : Material} {s s' : Split} {uses : List Nat}

theorem empty_sound (m : Material) : Split.empty.Sound m [] where
  checked := fun id node h => by simp [empty, Graph.empty, Graph.node?] at h
  results := fun id index t h => by simp [empty, Graph.empty, Graph.node?] at h
  aux := .nil
  auxOf := fun id index => ⟨nofun, nofun⟩
  mainOf := fun id place h => by cases h

/-- Uses of values that were used before change nothing. -/
theorem Sound.more (h : s.Sound m uses) {more : List Nat} (hmore : ∀ a ∈ more, a ∈ uses) :
    s.Sound m (uses ++ more) := by
  have hsame := firstUses_append_of_subset hmore
  exact ⟨h.checked, h.results, hsame ▸ h.aux, hsame ▸ h.auxOf, fun id place hfind =>
    ⟨hsame ▸ (h.mainOf id place hfind).1, fun a ha =>
      mem_append_left _ ((h.mainOf id place hfind).2 a ha)⟩⟩

/-- A node is appended to the main graph. -/
theorem Sound.push (h : s.Sound m uses) {node : Node} {place : Nat}
    (hvalue : ∀ value, node.op = .constant value → value.conformsTo node.type = true)
    (hresult : ∀ index, node.op = .lambdaResult index → index < s.aux.length)
    (hpush : s.push node = .ok (place, s')) :
    s'.Sound m uses ∧ s.graph.Extends s'.graph ∧ s'.graph.node? place = some node := by
  unfold Split.push at hpush
  split at hpush
  · cases hpush
  rename_i id graph hgraph
  cases hpush
  obtain ⟨rfl, rfl, hargs⟩ := Graph.push_eq_ok hgraph
  have hextends := Graph.extends_append s.graph node
  have hcases : ∀ {id : Nat} {found : Node}, (s.graph.append node).node? id = some found →
      (id = s.graph.size ∧ found = node) ∨ s.graph.node? id = some found := by
    intro id found hfound
    rw [Graph.node?_append] at hfound
    split at hfound
    · exact Or.inl ⟨‹_›, (Option.some.inj hfound).symm⟩
    · exact Or.inr hfound
  refine ⟨⟨fun id found hfound => ?_, fun id index t hfound => ?_, h.aux, h.auxOf,
    fun id place hfind => ?_⟩, hextends, ?_⟩
  · rcases hcases hfound with ⟨rfl, rfl⟩ | hold
    · exact Graph.checkNode_eq_ok_iff.mpr ⟨hargs, hvalue⟩
    · exact h.checked id found hold
  · rcases hcases hfound with ⟨rfl, hnode⟩ | hold
    · exact hresult index (hnode ▸ rfl)
    · exact h.results id index t hold
  · obtain ⟨hstands, huses⟩ := h.mainOf id place hfind
    exact ⟨hstands.mono hextends (prefix_refl _), huses⟩
  · exact (Graph.node?_append s.graph node s.graph.size).trans (if_pos rfl)

/-- The place of a node is noted. -/
theorem Sound.note (h : s.Sound m uses) {id place : Nat}
    (hstands : Stands m.graph (firstUses uses) s.graph id place)
    (huses : ∀ a ∈ m.graph.valueUses id, a ∈ uses) :
    Sound m { s with mainOf := s.mainOf.insert id place } uses := by
  refine ⟨h.checked, h.results, h.aux, h.auxOf, fun other place' hfind => ?_⟩
  dsimp only at hfind
  rw [OrderedMap.find?_insert (fun a b h₁ h₂ => by omega)] at hfind
  split at hfind
  · rename_i heq
    cases hfind
    cases heq
    exact ⟨hstands, huses⟩
  · exact h.mainOf other place' hfind

theorem getElem?_concat_eq_some {l : List Nat} {a b k : Nat} :
    (l ++ [a])[k]? = some b ↔ l[k]? = some b ∨ (k = l.length ∧ b = a) := by
  rcases Nat.lt_trichotomy k l.length with hlt | rfl | hlt
  · rw [getElem?_append_left hlt]
    exact ⟨Or.inl, fun h => h.elim id fun h => absurd h.1 (Nat.ne_of_lt hlt)⟩
  · simp [eq_comm]
  · have hlength : (l ++ [a]).length ≤ k := by
      rw [length_append]
      exact hlt
    rw [getElem?_eq_none hlength, getElem?_eq_none (Nat.le_of_lt hlt)]
    exact ⟨nofun, fun h => h.elim nofun fun h => absurd h.1 (Nat.ne_of_gt hlt)⟩

/-- A value is used: its fragment is there, or is made. -/
theorem Sound.auxIndex (hm : m.graph.WellFormed) (h : s.Sound m uses) {name : String}
    {arg index : Nat} {node : Node} (hnode : m.graph.node? arg = some node)
    (haux : s.auxIndex m name arg = .ok (index, s')) :
    s'.Sound m (uses ++ [arg]) ∧ s'.graph = s.graph ∧ index < s'.aux.length ∧
      (firstUses (uses ++ [arg]))[index]? = some arg := by
  unfold Split.auxIndex at haux
  split at haux
  · rename_i hfind
    cases haux
    have hindex := (h.auxOf arg index).mp hfind
    have hused : arg ∈ uses := mem_firstUses.mp (mem_of_getElem? hindex)
    have hmore : ∀ a ∈ [arg], a ∈ uses := fun a ha => mem_singleton.mp ha ▸ hused
    refine ⟨h.more hmore, rfl, ?_, ?_⟩
    · rw [h.aux.length_eq]
      exact (List.getElem?_eq_some_iff.mp hindex).1
    · rw [firstUses_append_of_subset hmore]
      exact hindex
  · rename_i hfind
    dsimp only at haux
    split at haux
    · cases haux
    rename_i copy root hroot
    cases haux
    have hnew : arg ∉ firstUses uses := by
      intro hmem
      obtain ⟨k, hk⟩ := mem_iff_getElem?.mp hmem
      rw [(h.auxOf arg k).mpr hk] at hfind
      cases hfind
    have hfirst : firstUses (uses ++ [arg]) = firstUses uses ++ [arg] := by
      rw [firstUses_concat, if_neg hnew]
    have hlength := h.aux.length_eq
    obtain ⟨e, he⟩ := hm.exists_unfolds (Graph.lt_size_of_node? hnode)
    have hcopy := Graph.Copy.root_unfolds (Graph.Copy.faithful_empty m.graph) hroot he
    refine ⟨⟨h.checked, fun id index t hid => ?_, ?_, fun id index => ?_, fun id place hid => ?_⟩,
      rfl, ?_, ?_⟩
    · have hlt := h.results id index t hid
      rw [length_append]
      exact Nat.lt_add_right _ hlt
    · rw [hfirst]
      exact rel_append h.aux (.cons ⟨rfl, e, ⟨root, rfl, hcopy⟩, he⟩ .nil)
    · dsimp only
      rw [OrderedMap.find?_insert (fun a b h₁ h₂ => by omega), hfirst, getElem?_concat_eq_some,
        ← hlength, ← h.auxOf]
      split
      · rename_i heq
        cases heq
        rw [hfind]
        simp [eq_comm]
      · rename_i hne
        simp [Ne.symm hne]
    · obtain ⟨hstands, huses⟩ := h.mainOf id place hid
      exact ⟨hstands.mono (Graph.Extends.refl _) (firstUses_grows uses [arg]), fun a ha =>
        mem_append_left _ (huses a ha)⟩
    · simp
    · rw [hfirst, hlength]
      simp

end Split

section

variable {m : Material} {s s' : Split} {uses : List Nat}

/-- What splitting one argument of a building block does. -/
structure Split.Takes (m : Material) (s s' : Split) (uses more : List Nat) (id place : Nat) :
    Prop where
  sound : s'.Sound m (uses ++ more)
  grows : s.graph.Extends s'.graph
  stands : Stands m.graph (firstUses (uses ++ more)) s'.graph id place

/-- A value is a constant of the main graph, or the result of its fragment. -/
theorem Split.Sound.value (hm : m.graph.check = .ok ()) (h : s.Sound m uses) {name : String}
    {arg place : Nat} {node : Node} (hnode : m.graph.node? arg = some node)
    (hvalue : s.value m name arg node = .ok (place, s')) :
    Split.Takes m s s' uses (if m.graph.isConstant arg then [] else [arg]) arg place := by
  obtain ⟨op, t⟩ := node
  have hchecked := Graph.checkNode_eq_ok_iff.mp (Graph.check_eq_ok_iff.mp hm arg _ hnode)
  unfold Split.value at hvalue
  split at hvalue
  · rename_i value hop
    cases hop
    have hconstant : m.graph.isConstant arg = true := by
      rw [Graph.isConstant, hnode]
    obtain ⟨hsound, hextends, hplace⟩ := h.push hchecked.2 (fun _ h => by cases h) hvalue
    rw [if_pos hconstant]
    refine ⟨?_, hextends, .constant hnode hplace⟩
    rw [append_nil]
    exact hsound
  · rename_i hop
    have hconstant : m.graph.isConstant arg = false := by
      rw [Graph.isConstant, hnode]
      cases op with
      | constant value => exact absurd rfl (hop value)
      | _ => all_goals rfl
    obtain ⟨⟨index, s₁⟩, haux, hpush⟩ := exists_of_bind_eq_ok hvalue
    obtain ⟨hsound₁, hgraph, hlt, hindex⟩ :=
      h.auxIndex (Graph.wellFormed_of_check hm) hnode haux
    have hresult : ∀ index', NodeOp.lambdaResult index = .lambdaResult index' →
        index' < s₁.aux.length := by
      rintro index' ⟨⟩
      exact hlt
    obtain ⟨hsound, hextends, hplace⟩ := hsound₁.push (fun _ h => by cases h) hresult hpush
    rw [hconstant, if_neg Bool.false_ne_true]
    exact ⟨hsound, hgraph ▸ hextends, .value hnode hindex hplace⟩

end

/-! ## Splitting -/

theorem bsdfCall_eq_ok {resolver : Resolver} {id : Nat} {node : Node} {call : String}
    {args : List Nat} (h : bsdfCall resolver id node = .ok (call, args)) :
    node.op = .call call args := by
  unfold bsdfCall at h
  split at h
  · rename_i hop
    split at h
    · cases h
      exact hop
    · cases h
  · cases h

mutual

/-- Splitting keeps the invariant, and the node that it returns stands for the node that was
split. -/
theorem split_sound {m : Material} (hm : m.graph.check = .ok ()) (resolver : Resolver)
    (name : String) (id : Nat) {s s' : Split} {uses : List Nat} {place : Nat} {node : Node}
    (hs : s.Sound m uses) (hnode : m.graph.node? id = some node) (htype : node.type = .bsdf)
    (h : split m resolver name id s = .ok (place, s')) :
    Split.Takes m s s' uses (m.graph.valueUses id) id place := by
  rw [split] at h
  split at h
  · rename_i hfind
    cases h
    obtain ⟨hstands, huses⟩ := hs.mainOf id place hfind
    refine ⟨hs.more huses, .refl _, ?_⟩
    rw [firstUses_append_of_subset huses]
    exact hstands
  rw [hnode] at h
  dsimp only at h
  obtain ⟨⟨call, args⟩, hcall, h⟩ := exists_of_bind_eq_ok h
  obtain ⟨⟨copies, s₁⟩, hargs, h⟩ := exists_of_bind_eq_ok h
  obtain ⟨⟨copied, s₂⟩, hpush, h⟩ := exists_of_bind_eq_ok h
  cases h
  obtain ⟨op, t⟩ := node
  cases htype
  cases bsdfCall_eq_ok hcall
  have huses : m.graph.valueUses id = m.graph.argumentUses id args := by
    rw [Graph.valueUses, hnode]
    rfl
  obtain ⟨hs₁, hgrows₁, hcopies⟩ := splitArgs_sound hm resolver name call id args hs hargs
  obtain ⟨hs₂, hgrows₂, hplace⟩ := hs₁.push (fun _ h => by cases h) (fun _ h => by cases h) hpush
  have hstands : Stands m.graph (firstUses (uses ++ m.graph.argumentUses id args)) s₂.graph id
      copied := by
    refine .block hnode hplace hcopies.length_eq fun ha hb => ?_
    obtain ⟨hk, rfl⟩ := List.getElem?_eq_some_iff.mp ha
    obtain ⟨hk', rfl⟩ := List.getElem?_eq_some_iff.mp hb
    exact (hcopies.get hk hk').mono hgrows₂ (prefix_refl _)
  rw [huses]
  refine ⟨hs₂.note hstands fun a ha => ?_, hgrows₁.trans hgrows₂, hstands⟩
  rw [huses] at ha
  exact mem_append_right _ ha
termination_by (id, 1, 0)

theorem splitArgs_sound {m : Material} (hm : m.graph.check = .ok ()) (resolver : Resolver)
    (name call : String) (bound : Nat) (args : List Nat) {s s' : Split} {uses copies : List Nat}
    (hs : s.Sound m uses) (h : splitArgs m resolver name call bound args s = .ok (copies, s')) :
    s'.Sound m (uses ++ m.graph.argumentUses bound args) ∧ s.graph.Extends s'.graph ∧
      Forall₂ (Stands m.graph (firstUses (uses ++ m.graph.argumentUses bound args)) s'.graph)
        args copies := by
  rw [splitArgs.eq_def] at h
  cases args with
  | nil =>
    cases h
    rw [Graph.argumentUses, append_nil]
    exact ⟨hs, .refl _, .nil⟩
  | cons arg rest =>
    dsimp only at h
    split at h
    · rename_i hlt
      split at h
      · cases h
      rename_i node hnode
      -- The first argument takes the values `more`, and the others go on from there.
      have hrest : ∀ {x : Except CompileError (Nat × Split)} {more : List Nat},
          (∀ {copied : Nat} {s₁ : Split}, x = .ok (copied, s₁) →
            Split.Takes m s s₁ uses more arg copied) →
          m.graph.argumentUses bound (arg :: rest)
            = more ++ m.graph.argumentUses bound rest →
          (do
            let (copied, s) ← x
            let (others, s) ← splitArgs m resolver name call bound rest s
            return (copied :: others, s)) = .ok (copies, s') →
          s'.Sound m (uses ++ m.graph.argumentUses bound (arg :: rest)) ∧
            s.graph.Extends s'.graph ∧
            Forall₂ (Stands m.graph
              (firstUses (uses ++ m.graph.argumentUses bound (arg :: rest))) s'.graph)
              (arg :: rest) copies := by
        intro x more hx huses h
        obtain ⟨⟨copied, s₁⟩, hcopied, h⟩ := exists_of_bind_eq_ok h
        obtain ⟨⟨others, s₂⟩, hothers, h⟩ := exists_of_bind_eq_ok h
        cases h
        obtain ⟨hs₁, hgrows₁, hstands⟩ := hx hcopied
        obtain ⟨hs₂, hgrows₂, hcopies⟩ :=
          splitArgs_sound hm resolver name call bound rest hs₁ hothers
        rw [huses, ← append_assoc]
        exact ⟨hs₂, hgrows₁.trans hgrows₂,
          .cons (hstands.mono hgrows₂ (firstUses_grows _ _)) hcopies⟩
      split at h
      · rename_i htype
        refine hrest (fun hfound => split_sound hm resolver name arg hs hnode htype hfound) ?_ h
        rw [Graph.argumentUses, dif_pos hlt, hnode]
        dsimp only
        rw [if_pos htype]
      · rename_i htype
        split at h
        · cases h
        · refine hrest (fun hfound => hs.value hm hnode hfound) ?_ h
          rw [Graph.argumentUses, dif_pos hlt, hnode]
          dsimp only
          rw [if_neg htype]
    · cases h
termination_by (bound, 0, args.length)

end

/-! ## Distributions of materials -/

theorem fieldNode_eq_ok {m : Material} {path : String} {compileConstants : Bool} {id : Nat}
    (h : fieldNode m path compileConstants = .ok id) :
    ∃ node, m.field? path = some id ∧ m.graph.node? id = some node ∧ node.type = .bsdf := by
  unfold fieldNode at h
  split at h
  · cases h
  rename_i found hfound
  split at h
  · cases h
  rename_i node hnode
  split at h
  · rename_i htype
    split at h
    · cases h
    · cases h
      exact ⟨node, hfound, hnode, htype⟩
  · cases h
  · cases h
  · cases h

/-- Splitting a distribution loses nothing.  Take a distribution that was split off a field of
a checked material.  The main graph is well formed, passes the check, and reads only results of
auxiliary fragments that there are.  The auxiliary fragments are those of the values that the
building blocks read, each once, in the order of their first use.  All fragments have the
parameters of the material.  And with the bodies of the auxiliary fragments in the place of
their results, the main fragment is the expression of the field. -/
theorem splitting_loses_nothing {m : Material} (hm : m.check = .ok ()) {path name : String}
    {resolver : Resolver} {compileConstants : Bool} {d : Distribution}
    (h : ofMaterial m path name resolver compileConstants = .ok d) :
    ∃ id root tree, m.field? path = some id ∧ d.main.roots = some (.single root) ∧
      m.graph.Unfolds id tree ∧
      (d.main.graph.WellFormed ∧ d.main.graph.check = .ok ()) ∧
      (∀ place index t, d.main.graph.node? place = some ⟨.lambdaResult index, t⟩ →
        index < d.aux.length) ∧
      (Forall₂ (Computes m) d.aux (firstUses (m.graph.valueUses id)) ∧
        (firstUses (m.graph.valueUses id)).Nodup) ∧
      d.main.parameters = m.parameters ∧
      (∃ main, d.main.graph.Unfolds root main) ∧
      ∀ main bodies, d.main.graph.Unfolds root main → Forall₂ Fragment.HasBody d.aux bodies →
        main.fill bodies = tree := by
  have hgraph : m.graph.check = .ok () := by
    unfold Material.check at hm
    split at hm
    · cases hm
    · assumption
  obtain ⟨id, hfield, h⟩ := exists_of_bind_eq_ok h
  obtain ⟨⟨root, s⟩, hsplit, h⟩ := exists_of_bind_eq_ok h
  cases h
  obtain ⟨node, hpath, hnode, htype⟩ := fieldNode_eq_ok hfield
  obtain ⟨hs, -, hstands⟩ :=
    split_sound hgraph resolver name id (Split.empty_sound m) hnode htype hsplit
  rw [nil_append] at hs hstands
  have hwell := Graph.wellFormed_of_check hgraph
  obtain ⟨tree, htree⟩ := hwell.exists_unfolds (Graph.lt_size_of_node? hnode)
  have hcheck : s.graph.check = .ok () := Graph.check_eq_ok_iff.mpr hs.checked
  have hmain := Graph.wellFormed_of_check hcheck
  refine ⟨id, root, tree, hpath, rfl, htree, ⟨hmain, hcheck⟩, hs.results,
    ⟨hs.aux, nodup_firstUses _⟩, rfl, hmain.exists_unfolds hstands.lt_size, ?_⟩
  intro main bodies hunfolds hbodies
  obtain ⟨main', hunfolds', hfill⟩ := hstands.unfolds (unfolds_of_computes hs.aux hbodies) htree
  rw [hunfolds.unique hunfolds']
  exact hfill

end Distribution

/-- A layer over itself.  The weight is read first, and the tint by both uses of the layer. -/
def doubleCoat : Material where
  name := "double coat"
  graph := ⟨#[⟨.parameter 0, .color⟩, ⟨.constant (.int 1), .int⟩,
    ⟨.call "df::diffuse_reflection_bsdf" [0, 1], .bsdf⟩, ⟨.parameter 1, .float⟩,
    ⟨.call "df::weighted_layer" [3, 2, 2], .bsdf⟩]⟩
  fields := OrderedMap.empty.insert "surface" 4
  parameters := [⟨"tint", .color, .color 1 1 1⟩, ⟨"weight", .float, .float 1⟩]

/-- Three uses of values lead to two fragments. -/
theorem splitting_loses_nothing_doubleCoat :
    doubleCoat.check = .ok () ∧ doubleCoat.graph.valueUses 4 = [3, 0, 0] ∧
      ∃ d root tree,
        Distribution.ofMaterial doubleCoat "surface" "coat" Library.empty true = .ok d ∧
        d.main.roots = some (.single root) ∧ doubleCoat.graph.Unfolds 4 tree ∧
        Forall₂ (Distribution.Computes doubleCoat) d.aux [3, 0] ∧
        ∃ main, d.main.graph.Unfolds root main ∧ ∀ bodies,
          Forall₂ Fragment.HasBody d.aux bodies → main.fill bodies = tree := by
  have hcheck : doubleCoat.check = .ok () := by
    cbv
  have huses : doubleCoat.graph.valueUses 4 = [3, 0, 0] := by
    cbv
  have hsplit : (Distribution.ofMaterial doubleCoat "surface" "coat" Library.empty true).map
      (·.aux.length) = .ok 2 := by
    cbv
  refine ⟨hcheck, huses, ?_⟩
  cases hd : Distribution.ofMaterial doubleCoat "surface" "coat" Library.empty true with
  | error e =>
    rw [hd] at hsplit
    cases hsplit
  | ok d =>
    obtain ⟨id, root, tree, hfield, hroots, htree, -, -, ⟨haux, -⟩, -, ⟨main, hmain⟩, hfill⟩ :=
      Distribution.splitting_loses_nothing hcheck hd
    cases hfield
    rw [huses] at haux
    exact ⟨d, root, tree, rfl, hroots, htree, haux, main, hmain, fun bodies hbodies =>
      hfill main bodies hmain hbodies⟩

end Shading
