import Shading.Proofs.Fragment.Frame
import Shading.Proofs.Graph.Copying

/-!
# Switches over fields

A switch is built field by field.  Each field is copied into the graph of the fields before it,
with the map of what was copied already, so the graph holds the nodes that the fields reach, and
each of them once.

Main definitions:

- `Material.IsValueField` says that a path names a field that can be compiled as a value.
- `Fragment.SwitchOf` says that a fragment computes the fields of some paths.

Main results:

- Theorem `Fragment.fieldNode_eq_ok_iff`: which fields are accepted.
- Theorems `Fragment.SwitchOf.addField` and `Fragment.SwitchOf.addFields`: a switch is extended
  by a field, and by a list of fields.
- Theorem `Compilable.exists_ofFields_iff`: which switches can be built.
- Theorem `switch_computes_fields_once`: this, and what a switch holds.
-/

namespace Shading

open List

namespace Material

/-- A path names a field that can be compiled as a value: its type holds no distribution and is
no resource, and it is not a constant, unless constants are compiled as well. -/
def IsValueField (m : Material) (compileConstants : Bool) (path : String) : Prop :=
  ∃ id node, m.field? path = some id ∧ m.graph.node? id = some node ∧
    node.type.containsDistribution = false ∧ node.type.isResource = false ∧
    (compileConstants = false → ∀ value, node.op ≠ .constant value)

theorem graph_wellFormed_of_check {m : Material} (h : m.check = .ok ()) : m.graph.WellFormed := by
  unfold Material.check at h
  split at h
  · cases h
  · exact Graph.wellFormed_of_check ‹_›

/-- A node of a graph stands for the expression of a field. -/
def ComputedIn (m : Material) (g : Graph) (path : String) (root : Nat) : Prop :=
  ∃ id e, m.field? path = some id ∧ m.graph.Unfolds id e ∧ g.Unfolds root e

theorem ComputedIn.of_extends {m : Material} {g g' : Graph} {path : String} {root : Nat}
    (h : m.ComputedIn g path root) (hg : g.Extends g') : m.ComputedIn g' path root := by
  obtain ⟨id, e, hid, he, hroot⟩ := h
  exact ⟨id, e, hid, he, hroot.of_extends hg⟩

end Material

theorem Graph.isConstant_eq_false_iff {g : Graph} {id : Nat} {node : Node}
    (h : g.node? id = some node) :
    g.isConstant id = false ↔ ∀ value, node.op ≠ .constant value := by
  obtain ⟨op, t⟩ := node
  unfold Graph.isConstant
  rw [h]
  cases op <;> simp

namespace Fragment

variable {m : Material} {path : String} {compileConstants : Bool} {f : Fragment}

/-! ## Fields -/

/-- The node of a field is accepted if it can be compiled as a value. -/
theorem fieldNode_eq_ok_iff {id : Nat} :
    fieldNode m path compileConstants = .ok id ↔
      m.field? path = some id ∧ ∃ node, m.graph.node? id = some node ∧
        node.type.containsDistribution = false ∧ node.type.isResource = false ∧
        (compileConstants = false → ∀ value, node.op ≠ .constant value) := by
  unfold fieldNode
  cases hfield : m.field? path with
  | none => exact ⟨nofun, nofun⟩
  | some found =>
    dsimp only
    cases hnode : m.graph.node? found with
    | none =>
      refine ⟨nofun, ?_⟩
      rintro ⟨hid, node, hnode', -⟩
      cases hid
      cases hnode.symm.trans hnode'
    | some node =>
      have hconstant : (!compileConstants && m.graph.isConstant found) = false ↔
          (compileConstants = false → ∀ value, node.op ≠ .constant value) := by
        rw [← Graph.isConstant_eq_false_iff hnode]
        cases compileConstants <;> simp
      dsimp only
      constructor
      · intro h
        split at h
        · cases h
        split at h
        · cases h
        · rename_i hc ht
          cases h
          obtain ⟨hd, hr⟩ := Bool.or_eq_false_iff.mp (Bool.eq_false_of_not_eq_true ht)
          exact ⟨rfl, node, hnode, hd, hr,
            hconstant.mp (Bool.eq_false_of_not_eq_true hc)⟩
      · rintro ⟨hid, node', hnode', hd, hr, hc⟩
        cases hid
        cases hnode.symm.trans hnode'
        rw [hconstant.mpr hc, hd, hr]
        rfl

theorem isValueField_of_fieldNode {id : Nat} (h : fieldNode m path compileConstants = .ok id) :
    m.IsValueField compileConstants path := by
  obtain ⟨hfield, node, hnode, hvalue⟩ := fieldNode_eq_ok_iff.mp h
  exact ⟨id, node, hfield, hnode, hvalue⟩

/-- What a further field had to be. -/
theorem isValueField_of_addField {f' : Fragment} {index : Nat}
    (h : f.addField m path compileConstants = (f', .ok index)) :
    m.IsValueField compileConstants path ∧ ExecutionContext.ofPath path = f.context := by
  unfold addField at h
  split at h
  · cases h
  split at h
  · cases h
  rename_i id hid
  dsimp only at h
  split at h
  · cases h
  · rename_i hcontext
    exact ⟨isValueField_of_fieldNode hid, not_not.mp hcontext⟩

/-! ## Switches -/

/-- A fragment computes the fields of some paths.  Its graph is a copy of what the fields
reach. -/
structure SwitchOf (m : Material) (name : String) (context : ExecutionContext)
    (paths : List String) (f : Fragment) : Prop where
  name_eq : f.name = name
  context_eq : f.context = context
  roots : ∃ roots, f.roots = some (.multiRoot roots) ∧
    Forall₂ (m.ComputedIn f.graph) paths roots
  copy : Graph.Copy.Sound m.graph ⟨f.graph, f.copied⟩
  copied : ∀ id, f.copied.contains id ↔ m.graph.Reachable (paths.filterMap m.field?) id
  parameters : f.parameters = m.parameters ∨ paths = [] ∧ f.parameters = []

theorem switchOf_empty (m : Material) (name : String) (context : ExecutionContext) :
    (Fragment.empty name context).toSwitch.SwitchOf m name context [] where
  name_eq := rfl
  context_eq := rfl
  roots := ⟨[], rfl, .nil⟩
  copy := Graph.Copy.sound_empty m.graph
  copied := by
    intro id
    refine ⟨fun h => ?_, fun h => absurd h Graph.not_reachable_nil⟩
    cases h
  parameters := .inr ⟨rfl, rfl⟩

namespace SwitchOf

variable {name : String} {context : ExecutionContext} {done paths : List String}

/-- A switch takes the parameters of the material with its first field, and keeps them. -/
theorem parameters_eq (h : f.SwitchOf m name context done) :
    (if f.parameters.isEmpty then { f with parameters := m.parameters } else f)
      = { f with parameters := m.parameters } := by
  split
  · rfl
  · rename_i hnonempty
    rcases h.parameters with h | ⟨-, h⟩
    · rw [← h]
    · rw [h] at hnonempty
      exact absurd rfl hnonempty

/-- A field of the same context extends a switch. -/
theorem addField (hm : m.graph.WellFormed) (h : f.SwitchOf m name context done)
    (hfield : m.IsValueField compileConstants path)
    (hcontext : ExecutionContext.ofPath path = context) :
    ∃ f' index, f.addField m path compileConstants = (f', .ok index) ∧
      f'.SwitchOf m name context (done ++ [path]) := by
  obtain ⟨id, node, hpath, hnode, hvalue⟩ := hfield
  have hid := fieldNode_eq_ok_iff.mpr ⟨hpath, node, hnode, hvalue⟩
  have hlt := Graph.lt_size_of_node? hnode
  obtain ⟨roots, hroots, hcomputed⟩ := h.roots
  obtain ⟨c, root, hrun, hc, hgrows, hcontains⟩ :=
    Graph.Copy.root_copies hm h.copy.toConsistent hlt
  have hsame : ¬ExecutionContext.ofPath path ≠ f.context :=
    not_not.mpr (hcontext.trans h.context_eq.symm)
  refine ⟨{ f with
    parameters := m.parameters, graph := c.graph, copied := c.map,
    roots := some (.multiRoot (roots ++ [root])) }, roots.length, ?_, ?_⟩
  · unfold Fragment.addField
    split
    · rename_i hsingle
      cases hroots.symm.trans hsingle
    · rw [hid]
      dsimp only
      rw [if_neg hsame, h.parameters_eq]
      dsimp only
      rw [hrun]
      simp only [addRoot, rootNodes, hroots]
  · obtain ⟨e, he⟩ := hm.exists_unfolds hlt
    refine ⟨h.name_eq, h.context_eq, ⟨_, rfl, ?_⟩, h.copy.of_grows hgrows hc, ?_, .inl rfl⟩
    · refine rel_append (hcomputed.imp fun _ _ h => h.of_extends hgrows.extends_graph)
        (.cons ?_ .nil)
      exact ⟨id, e, hpath, he, Graph.Copy.root_unfolds h.copy.faithful hrun he⟩
    · intro other
      rw [hcontains, h.copied, filterMap_append, Graph.reachable_append]
      simp only [filterMap_cons, hpath, filterMap_nil]

/-- Fields of the same context extend a switch one after the other. -/
theorem addFields (hm : m.graph.WellFormed) (h : f.SwitchOf m name context done)
    (hfields : ∀ path ∈ paths, m.IsValueField compileConstants path ∧
      ExecutionContext.ofPath path = context) :
    ∃ g, Compilable.addFields m compileConstants f paths = .ok g ∧
      g.SwitchOf m name context (done ++ paths) := by
  induction paths generalizing f done with
  | nil => exact ⟨f, rfl, by rwa [append_nil]⟩
  | cons path rest ih =>
    obtain ⟨hfield, hcontext⟩ := hfields path mem_cons_self
    obtain ⟨f', index, hadd, hf'⟩ := h.addField hm hfield hcontext
    obtain ⟨g, hrun, hg⟩ := ih hf' fun path hpath => hfields path (mem_cons_of_mem _ hpath)
    refine ⟨g, ?_, ?_⟩
    · rw [Compilable.addFields, hadd]
      exact hrun
    · rwa [append_assoc] at hg

end SwitchOf

end Fragment

namespace Compilable

variable {m : Material} {paths : List String} {name : String} {compileConstants : Bool}

/-- What the fields had to be that were added. -/
theorem isValueField_of_addFields {f g : Fragment}
    (h : addFields m compileConstants f paths = .ok g) :
    ∀ path ∈ paths, m.IsValueField compileConstants path ∧
      ExecutionContext.ofPath path = f.context := by
  induction paths generalizing f with
  | nil => exact forall_mem_nil _
  | cons first rest ih =>
    have hframe := (f.addField_frame m first compileConstants).1
    unfold addFields at h
    split at h
    · cases h
    · rename_i f' index hadd
      rw [hadd] at hframe
      intro path hpath
      rcases mem_cons.mp hpath with rfl | hpath
      · exact Fragment.isValueField_of_addField hadd
      · rw [← hframe.context]
        exact ih h path hpath

/-- A switch over fields needs a name and a first field. -/
theorem ofFields_eq_ok_iff {c : Compilable} :
    ofFields m paths name compileConstants = .ok c ↔
      name ≠ "" ∧ ∃ first f, paths.head? = some first ∧
        addFields m compileConstants
          (Fragment.empty name (ExecutionContext.ofPath first)).toSwitch paths = .ok f ∧
        c = .function f .switchLambda := by
  unfold ofFields checkName
  by_cases hname : name = ""
  · simp [hname, bind, Except.bind]
  · rw [if_neg hname]
    cases paths with
    | nil => simp [bind, Except.bind, throw, throwThe, MonadExceptOf.throw]
    | cons first rest =>
      constructor
      · intro h
        obtain ⟨-, -, h⟩ := exists_of_bind_eq_ok h
        obtain ⟨f, hf, h⟩ := exists_of_bind_eq_ok h
        cases h
        exact ⟨hname, first, f, rfl, hf, rfl⟩
      · rintro ⟨-, _, f, hfirst, hf, rfl⟩
        cases hfirst
        dsimp only [bind, Except.bind]
        rw [hf]
        rfl

/-- Which switches can be built from a well-formed graph. -/
theorem exists_ofFields_iff (hm : m.graph.WellFormed) :
    (∃ c, ofFields m paths name compileConstants = .ok c) ↔
      name ≠ "" ∧ paths ≠ [] ∧ (∀ path ∈ paths, m.IsValueField compileConstants path) ∧
        ∀ first, paths.head? = some first → ∀ path ∈ paths,
          ExecutionContext.ofPath path = ExecutionContext.ofPath first := by
  constructor
  · rintro ⟨c, hc⟩
    obtain ⟨hname, first, f, hfirst, hf, -⟩ := ofFields_eq_ok_iff.mp hc
    have hfields := isValueField_of_addFields hf
    refine ⟨hname, ?_, fun path hpath => (hfields path hpath).1, ?_⟩
    · rintro rfl
      cases hfirst
    · intro first' hfirst' path hpath
      cases hfirst.symm.trans hfirst'
      exact (hfields path hpath).2
  · rintro ⟨hname, hpaths, hfields, hcontext⟩
    obtain ⟨first, hfirst⟩ := Option.isSome_iff_exists.mp (isSome_head?.mpr hpaths)
    obtain ⟨f, hf, -⟩ := (Fragment.switchOf_empty m name
      (ExecutionContext.ofPath first)).addFields hm fun path hpath =>
        ⟨hfields path hpath, hcontext first hfirst path hpath⟩
    exact ⟨_, ofFields_eq_ok_iff.mpr ⟨hname, first, f, hfirst, hf, rfl⟩⟩

/-- What is built is a switch over the fields. -/
theorem switchOf_of_ofFields (hm : m.graph.WellFormed) {c : Compilable}
    (h : ofFields m paths name compileConstants = .ok c) :
    ∃ first f, paths.head? = some first ∧ c = .function f .switchLambda ∧
      f.SwitchOf m name (ExecutionContext.ofPath first) paths := by
  obtain ⟨-, first, f, hfirst, hf, rfl⟩ := ofFields_eq_ok_iff.mp h
  obtain ⟨g, hg, hswitch⟩ := (Fragment.switchOf_empty m name
    (ExecutionContext.ofPath first)).addFields hm (isValueField_of_addFields hf)
  cases hf.symm.trans hg
  rw [nil_append] at hswitch
  exact ⟨first, f, hfirst, rfl, hswitch⟩

end Compilable

/-- A switch computes the requested fields, and shares what they share.  It is built from a
checked material exactly if there is a name, there are paths, all of them name fields that can
be compiled as values, and all of them have the context of the first one.  It then has one root
for each path, which stands for the expression of the field; the parameters of the material; and
a well-formed graph with one node for each node of the material that some field reaches. -/
theorem switch_computes_fields_once {m : Material} (hm : m.check = .ok ()) (paths : List String)
    (name : String) (compileConstants : Bool) :
    ((∃ c, Compilable.ofFields m paths name compileConstants = .ok c) ↔
      name ≠ "" ∧ paths ≠ [] ∧ (∀ path ∈ paths, m.IsValueField compileConstants path) ∧
        ∀ first, paths.head? = some first → ∀ path ∈ paths,
          ExecutionContext.ofPath path = ExecutionContext.ofPath first) ∧
    ∀ c, Compilable.ofFields m paths name compileConstants = .ok c →
      ∃ f roots, c = .function f .switchLambda ∧ f.name = name ∧
        f.roots = some (.multiRoot roots) ∧ roots.length = paths.length ∧
        Forall₂ (m.ComputedIn f.graph) paths roots ∧
        f.parameters = m.parameters ∧ f.graph.WellFormed ∧
        Set.encard {id | m.graph.Reachable (paths.filterMap m.field?) id} = f.graph.size := by
  have hgraph := Material.graph_wellFormed_of_check hm
  refine ⟨Compilable.exists_ofFields_iff hgraph, fun c hc => ?_⟩
  obtain ⟨first, f, hfirst, rfl, hswitch⟩ := Compilable.switchOf_of_ofFields hgraph hc
  obtain ⟨roots, hroots, hcomputed⟩ := hswitch.roots
  have hparameters : f.parameters = m.parameters := by
    rcases hswitch.parameters with h | ⟨rfl, -⟩
    · exact h
    · cases hfirst
  have hcount : Set.encard {id | m.graph.Reachable (paths.filterMap m.field?) id}
      = f.graph.size := by
    rw [← hswitch.copy.count]
    congr 1
    ext id
    exact (hswitch.copied id).symm
  exact ⟨f, roots, rfl, hswitch.name_eq, hroots, hcomputed.length_eq.symm, hcomputed,
    hparameters, hswitch.copy.wellFormed, hcount⟩

/-- Two fields that share a parameter.  Nothing needs the constant. -/
def glaze : Material where
  name := "glaze"
  graph := ⟨#[⟨.parameter 0, .color⟩, ⟨.constant (.float 1), .float⟩,
    ⟨.call "math::luminance" [0], .float⟩, ⟨.call "math::saturate" [0], .color⟩]⟩
  fields := (OrderedMap.empty.insert "sheen" 2).insert "tint" 3
  parameters := [⟨"color", .color, .color 1 1 1⟩]

/-- Three paths lead to three roots.  The parameter and the repeated field are copied once. -/
theorem switch_computes_fields_once_glaze :
    glaze.check = .ok () ∧
      ∃ f, Compilable.ofFields glaze ["tint", "sheen", "tint"] "pick" false
          = .ok (.function f .switchLambda) ∧
        f.roots = some (.multiRoot [1, 2, 1]) ∧
        Forall₂ (glaze.ComputedIn f.graph) ["tint", "sheen", "tint"] [1, 2, 1] ∧
        Set.encard {id | glaze.graph.Reachable [3, 2, 3] id} = 3 := by
  have hcheck : glaze.check = .ok () := by
    cbv
  have hbuilt : (Compilable.ofFields glaze ["tint", "sheen", "tint"] "pick" false).map
      (fun c => (c.main.roots, c.main.graph.size)) = .ok (some (.multiRoot [1, 2, 1]), 3) := by
    cbv
  have hids : ["tint", "sheen", "tint"].filterMap glaze.field? = [3, 2, 3] := by
    cbv
  refine ⟨hcheck, ?_⟩
  cases hc : Compilable.ofFields glaze ["tint", "sheen", "tint"] "pick" false with
  | error e =>
    rw [hc] at hbuilt
    cases hbuilt
  | ok c =>
    obtain ⟨f, roots, rfl, -, hroots, -, hcomputed, -, -, hcount⟩ :=
      (switch_computes_fields_once hcheck _ _ _).2 c hc
    rw [hc] at hbuilt
    obtain ⟨hmain, hsize⟩ := Prod.mk.inj (Except.ok.inj hbuilt)
    cases hroots.symm.trans hmain
    refine ⟨f, rfl, hmain, hcomputed, ?_⟩
    rw [← hids, hcount]
    exact congrArg _ hsize

end Shading
