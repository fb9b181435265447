import Mathlib.Logic.Relation
import Shading.Session.Compilable

/-!
# Parameters keep their types in copies

The parameter nodes of a checked material have the types of the parameters.  Copying into
fragments keeps this: a copied node differs from its source in the arguments of calls only.

Main definitions:

- `Graph.ParametersFrom` says that parameter nodes have the types of a parameter list.
- `Fragment.BuiltFrom` says how a fragment may come out of a material.
- `Distribution.Split.Step` is what splitting a distribution does, step by step.

Main results:

- Theorem `Graph.Copy.root_forall`: what holds of all nodes holds of their copies.
- Theorem `Fragment.BuiltFrom.reads`: fragments that are built from a material.
- Theorem `Distribution.ofMaterial_reads`: distributions that are split off a material.
-/

namespace Shading

variable {node : Node} {m : Material} {name : String}

/-- What a successful sequence of two computations has done. -/
theorem exists_of_bind_eq_ok {ε α β : Type} {x : Except ε α} {f : α → Except ε β} {b : β}
    (h : x >>= f = .ok b) : ∃ a, x = .ok a ∧ f a = .ok b := by
  cases x with
  | error e => cases h
  | ok a => exact ⟨a, rfl, h⟩

/-! ## Copies -/

/-- A property of nodes that does not depend on the arguments of calls. -/
def Node.Blind (P : Node → Prop) : Prop :=
  ∀ (name : String) (args args' : List Nat) (t : ValueType),
    P ⟨.call name args, t⟩ → P ⟨.call name args', t⟩

namespace Graph

/-- All nodes of a graph have a property. -/
def Forall (P : Node → Prop) (g : Graph) : Prop :=
  ∀ node ∈ g.nodes, P node

variable {P : Node → Prop} {g : Graph}

theorem forall_empty : Graph.empty.Forall P :=
  fun node hnode => absurd hnode (Array.not_mem_empty node)

theorem Forall.node? (h : g.Forall P) {id : Nat} (hnode : g.node? id = some node) : P node :=
  h node (Array.mem_of_getElem? hnode)

theorem Forall.append (h : g.Forall P) (hnode : P node) : (g.append node).Forall P := by
  intro found hfound
  rcases Array.mem_push.mp hfound with hfound | rfl
  · exact h found hfound
  · exact hnode

theorem Forall.push (h : g.Forall P) {node : Node} (hnode : P node) {id : Nat} {g' : Graph}
    (hpush : g.push node = .ok (id, g')) : g'.Forall P := by
  have happend : g' = g.append node := by
    unfold Graph.push at hpush
    split at hpush
    · split at hpush
      · cases hpush
      · cases hpush
        rfl
    · cases hpush
      rfl
  rw [happend]
  exact h.append hnode

namespace Copy

variable {c : Copy} {source : Graph}

theorem node?_of_blind (hP : Node.Blind P) {copied : Node} (hnode : P node)
    (h : c.node? node = .ok copied) : P copied := by
  obtain ⟨op, t⟩ := node
  unfold Copy.node? at h
  cases op with
  | call name args =>
    dsimp only at h
    cases hargs : c.args? args with
    | error e =>
      rw [hargs] at h
      cases h
    | ok args' =>
      rw [hargs] at h
      cases h
      exact hP name args args' t hnode
  | _ =>
    cases h
    exact hnode

theorem nodes_forall (hP : Node.Blind P) (hsource : source.Forall P) (ids : List Nat)
    (hc : c.graph.Forall P) : (c.nodes source ids).1.graph.Forall P := by
  induction ids generalizing c with
  | nil => exact hc
  | cons id rest ih =>
    unfold nodes
    split
    · exact ih hc
    · split
      · exact hc
      · rename_i node hnode
        split
        · exact hc
        · rename_i copied hcopied
          split
          · exact hc
          · rename_i place graph hpush
            exact ih (hc.push (node?_of_blind hP (hsource.node? hnode) hcopied) hpush)

/-- What holds of all nodes of a graph holds of their copies. -/
theorem root_forall (hP : Node.Blind P) (hsource : source.Forall P) (hc : c.graph.Forall P)
    (root : Nat) : (Copy.root source c root).1.graph.Forall P := by
  have hnodes := nodes_forall hP hsource (source.postOrder [root]) hc
  unfold Copy.root
  split
  · rename_i hrun
    rw [hrun] at hnodes
    exact hnodes
  · rename_i hrun
    rw [hrun] at hnodes
    split <;> exact hnodes

end Copy

end Graph

/-! ## Parameter nodes -/

/-- A node that is no parameter, or one of its type. -/
def Node.ParameterOf (parameters : List Parameter) (node : Node) : Prop :=
  ∀ index, node.op = .parameter index →
    ∃ p, parameters[index]? = some p ∧ p.type = node.type

/-- The parameter nodes of a graph have the types of the parameters. -/
abbrev Graph.ParametersFrom (parameters : List Parameter) (g : Graph) : Prop :=
  g.Forall (Node.ParameterOf parameters)

theorem Node.parameterOf_blind (parameters : List Parameter) :
    Node.Blind (Node.ParameterOf parameters) := by
  intro name args args' t _ index hindex
  cases hindex

namespace Material

theorem parameterOf_of_checkParameterNodes {nodes : List Node} {first : Nat}
    (h : m.checkParameterNodes first nodes = .ok ()) :
    ∀ node ∈ nodes, Node.ParameterOf m.parameters node := by
  induction nodes generalizing first with
  | nil =>
    intro node hnode
    cases hnode
  | cons node rest ih =>
    unfold checkParameterNodes at h
    split at h
    · cases h
    rename_i hcheck
    intro node' hnode'
    rcases List.mem_cons.mp hnode' with heq | hnode'
    · rw [heq]
      intro index hindex
      unfold checkParameterNode at hcheck
      rw [hindex] at hcheck
      dsimp only at hcheck
      split at hcheck
      · cases hcheck
      · rename_i p hp
        split at hcheck
        · rename_i htype
          exact ⟨p, hp, htype⟩
        · cases hcheck
    · exact ih h node' hnode'

theorem parameter_checks_of_check (h : m.check = .ok ()) :
    m.checkParameterNodes 0 m.graph.nodes.toList = .ok () ∧ m.checkParameters = .ok () := by
  unfold check at h
  split at h
  · cases h
  · obtain ⟨_, _, h⟩ := exists_of_bind_eq_ok h
    obtain ⟨_, hnodes, hparameters⟩ := exists_of_bind_eq_ok h
    exact ⟨hnodes, hparameters⟩

/-- The parameter nodes of a checked material have the types of its parameters. -/
theorem parametersFrom_of_check (h : m.check = .ok ()) : m.graph.ParametersFrom m.parameters := by
  intro node hnode
  exact parameterOf_of_checkParameterNodes (parameter_checks_of_check h).1 node
    (Array.mem_toList_iff.mpr hnode)

/-- The parameters of a checked material have values of their types. -/
theorem conformsTo_of_check (h : m.check = .ok ()) :
    ∀ p ∈ m.parameters, p.value.conformsTo p.type = true := by
  have hparameters := (parameter_checks_of_check h).2
  unfold checkParameters at hparameters
  split at hparameters
  · cases hparameters
  · rename_i hnone
    simpa using hnone

end Material

/-! ## Fragments -/

namespace Fragment

/-- A fragment that was built from a material: it starts empty or as one field, takes in
further fields, and may change in everything that does not concern its nodes. -/
inductive BuiltFrom (m : Material) : Fragment → Prop
  | empty (name : String) (context : ExecutionContext) : BuiltFrom m (Fragment.empty name context)
  | ofField {f : Fragment} {path name : String} {compileConstants : Bool}
      (h : Fragment.ofField m path name compileConstants = .ok f) : BuiltFrom m f
  | addField {f : Fragment} (path : String) (compileConstants : Bool) (h : BuiltFrom m f) :
      BuiltFrom m (f.addField m path compileConstants).1
  | edit {f g : Fragment} (h : BuiltFrom m f) (hgraph : g.graph = f.graph)
      (hparameters : g.parameters = f.parameters) : BuiltFrom m g

/-- The parameters of a fragment are those of a material, unless it has none, and so are
its parameter nodes. -/
structure ReadsParametersOf (m : Material) (f : Fragment) : Prop where
  parameters : f.parameters = [] ∨ f.parameters = m.parameters
  nodes : f.graph.ParametersFrom m.parameters

theorem empty_reads (m : Material) (name : String) (context : ExecutionContext) :
    (Fragment.empty name context).ReadsParametersOf m :=
  ⟨Or.inl rfl, Graph.forall_empty⟩

variable {m : Material} {f : Fragment}

theorem ofField_reads (hm : m.graph.ParametersFrom m.parameters) {path : String}
    {compileConstants : Bool} (h : Fragment.ofField m path name compileConstants = .ok f) :
    f.ReadsParametersOf m := by
  unfold Fragment.ofField at h
  split at h
  · cases h
  rename_i id _
  have hcopy := Graph.Copy.root_forall (Node.parameterOf_blind m.parameters) hm
    (c := ⟨Graph.empty, OrderedMap.empty⟩) Graph.forall_empty id
  split at h
  · cases h
  rename_i copy body hroot
  rw [hroot] at hcopy
  cases h
  exact ⟨Or.inr rfl, hcopy⟩

theorem addField_reads (hm : m.graph.ParametersFrom m.parameters) (hf : f.ReadsParametersOf m)
    (path : String) (compileConstants : Bool) :
    (f.addField m path compileConstants).1.ReadsParametersOf m := by
  have hcaptured : ReadsParametersOf m
      (if f.parameters.isEmpty then { f with parameters := m.parameters } else f) := by
    split
    · exact ⟨Or.inr rfl, hf.nodes⟩
    · exact hf
  unfold Fragment.addField
  split
  · exact hf
  split
  · exact hf
  rename_i id _
  dsimp only
  split
  · exact hf
  generalize (if f.parameters.isEmpty then { f with parameters := m.parameters } else f) = g
    at hcaptured ⊢
  have hcopy := Graph.Copy.root_forall (Node.parameterOf_blind m.parameters) hm
    (c := ⟨g.graph, g.copied⟩) hcaptured.nodes id
  have hcopied : ReadsParametersOf m { g with
      graph := (Graph.Copy.root m.graph ⟨g.graph, g.copied⟩ id).1.graph
      copied := (Graph.Copy.root m.graph ⟨g.graph, g.copied⟩ id).1.map } :=
    ⟨hcaptured.parameters, hcopy⟩
  split
  · exact hcopied
  split
  · exact hcopied
  · rename_i hroot
    unfold addRoot at hroot
    split at hroot
    · cases hroot
    · cases hroot
      exact ⟨hcopied.parameters, hcopied.nodes⟩

theorem BuiltFrom.reads (hm : m.check = .ok ()) (h : f.BuiltFrom m) : f.ReadsParametersOf m := by
  have hm' := Material.parametersFrom_of_check hm
  induction h with
  | empty name context => exact empty_reads m name context
  | ofField h => exact ofField_reads hm' h
  | addField path compileConstants _ ih => exact addField_reads hm' ih path compileConstants
  | edit _ hgraph hparameters ih => exact ⟨hparameters ▸ ih.parameters, hgraph ▸ ih.nodes⟩

end Fragment

/-! ## Distributions -/

namespace Distribution

namespace Split

/-- One step of splitting a distribution off a material: a node that is no parameter is
appended, an auxiliary fragment is looked up or made, or the place of a node is noted. -/
inductive Step (m : Material) : Split → Split → Prop
  | push {s s' : Split} {node : Node} {id : Nat} (hnode : ∀ index, node.op ≠ .parameter index)
      (h : s.push node = .ok (id, s')) : Step m s s'
  | aux {s s' : Split} {name : String} {arg index : Nat}
      (h : s.auxIndex m name arg = .ok (index, s')) : Step m s s'
  | note {s : Split} (mainOf : OrderedMap Nat Nat) : Step m s { s with mainOf }

/-- Several steps of splitting. -/
abbrev Steps (m : Material) : Split → Split → Prop :=
  Relation.ReflTransGen (Step m)

theorem value_steps {s : Split} {arg : Nat} {r : Nat × Split}
    (h : s.value m name arg node = .ok r) : Steps m s r.2 := by
  obtain ⟨id, s'⟩ := r
  unfold Split.value at h
  split at h
  · exact .single (.push (fun _ h => by cases h) h)
  · obtain ⟨⟨index, s₁⟩, haux, h⟩ := exists_of_bind_eq_ok h
    exact (Relation.ReflTransGen.single (.aux haux)).tail (.push (fun _ h => by cases h) h)

end Split

mutual

theorem split_steps (m : Material) (resolver : Resolver) (name : String) (id : Nat) {s : Split}
    {r : Nat × Split} (h : split m resolver name id s = .ok r) : Split.Steps m s r.2 := by
  rw [split] at h
  split at h
  · cases h
    exact .refl
  split at h
  · cases h
  obtain ⟨⟨call, args⟩, _, h⟩ := exists_of_bind_eq_ok h
  obtain ⟨⟨copies, s₁⟩, hargs, h⟩ := exists_of_bind_eq_ok h
  obtain ⟨⟨copied, s₂⟩, hpush, h⟩ := exists_of_bind_eq_ok h
  cases h
  have hs₁ := splitArgs_steps m resolver name call id args hargs
  exact (hs₁.tail (.push (fun _ h => by cases h) hpush)).tail (.note _)
termination_by (id, 1, 0)

theorem splitArgs_steps (m : Material) (resolver : Resolver) (name call : String) (bound : Nat)
    (args : List Nat) {s : Split} {r : List Nat × Split}
    (h : splitArgs m resolver name call bound args s = .ok r) : Split.Steps m s r.2 := by
  rw [splitArgs.eq_def] at h
  cases args with
  | nil =>
    cases h
    exact .refl
  | cons arg rest =>
    dsimp only at h
    split at h
    · rename_i hlt
      split at h
      · cases h
      have hrest : ∀ {x : Except CompileError (Nat × Split)},
          (∀ {found : Nat × Split}, x = .ok found → Split.Steps m s found.2) →
          (do
            let (copied, s) ← x
            let (others, s) ← splitArgs m resolver name call bound rest s
            return (copied :: others, s)) = .ok r → Split.Steps m s r.2 := by
        intro x hx h
        obtain ⟨⟨copied, s₁⟩, hcopied, h⟩ := exists_of_bind_eq_ok h
        obtain ⟨⟨others, s₂⟩, hothers, h⟩ := exists_of_bind_eq_ok h
        cases h
        have hs₂ := splitArgs_steps m resolver name call bound rest hothers
        exact (hx hcopied).trans hs₂
      split at h
      · exact hrest (fun hfound => split_steps m resolver name arg hfound) h
      split at h
      · cases h
      · exact hrest (fun hfound => Split.value_steps hfound) h
    · cases h
termination_by (bound, 0, args.length)

end

namespace Split

/-- The parameter nodes of the main fragment and of the auxiliary ones are those of a
material. -/
structure ReadsParametersOf (m : Material) (s : Split) : Prop where
  main : s.graph.ParametersFrom m.parameters
  aux : ∀ f ∈ s.aux, f.graph.ParametersFrom m.parameters

variable {m : Material} {s s' : Split}

theorem push_reads (hs : s.ReadsParametersOf m) (hnode : node.ParameterOf m.parameters) {id : Nat}
    (h : s.push node = .ok (id, s')) : s'.ReadsParametersOf m := by
  unfold Split.push at h
  split at h
  · cases h
  · rename_i hpush
    cases h
    exact ⟨hs.main.push hnode hpush, hs.aux⟩

theorem auxIndex_reads (hm : m.graph.ParametersFrom m.parameters) (hs : s.ReadsParametersOf m)
    {arg index : Nat} (h : s.auxIndex m name arg = .ok (index, s')) : s'.ReadsParametersOf m := by
  unfold Split.auxIndex at h
  split at h
  · cases h
    exact hs
  have hcopy := Graph.Copy.root_forall (Node.parameterOf_blind m.parameters) hm
    (c := ⟨Graph.empty, OrderedMap.empty⟩) Graph.forall_empty arg
  dsimp only at h
  split at h
  · cases h
  rename_i copy root hroot
  rw [hroot] at hcopy
  cases h
  refine ⟨hs.main, fun f hf => ?_⟩
  rcases List.mem_append.mp hf with hf | hf
  · exact hs.aux f hf
  · rw [List.mem_singleton.mp hf]
    exact hcopy

theorem Steps.reads (hm : m.graph.ParametersFrom m.parameters) (h : Steps m s s')
    (hs : s.ReadsParametersOf m) : s'.ReadsParametersOf m := by
  induction h with
  | refl => exact hs
  | tail _ hstep ih =>
    cases hstep with
    | push hnode h => exact push_reads ih (fun index hindex => absurd hindex (hnode index)) h
    | aux h => exact auxIndex_reads hm ih h
    | note mainOf => exact ⟨ih.main, ih.aux⟩

end Split

/-- The parameter nodes of a distribution that was split off a checked material are those of
the material. -/
theorem ofMaterial_reads (hm : m.check = .ok ()) {path : String} {resolver : Resolver}
    {compileConstants : Bool} {d : Distribution}
    (h : ofMaterial m path name resolver compileConstants = .ok d) :
    d.main.ReadsParametersOf m ∧ ∀ f ∈ d.aux, f.graph.ParametersFrom m.parameters := by
  obtain ⟨id, _, h⟩ := exists_of_bind_eq_ok h
  obtain ⟨⟨root, s⟩, hsplit, h⟩ := exists_of_bind_eq_ok h
  cases h
  have hs := (split_steps m resolver name id hsplit).reads (Material.parametersFrom_of_check hm)
    ⟨Graph.forall_empty, List.forall_mem_nil _⟩
  exact ⟨⟨Or.inr rfl, hs.main⟩, hs.aux⟩

end Distribution

end Shading
