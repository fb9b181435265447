import Shading.Proofs.Lowering.Expression
import Shading.Proofs.Resource.Coverage

/-!
# What lowering depends on

Lowering reads the nodes that its roots reach and asks for the fragments that are called from
there, and for the resources in the literals that it meets there and in these fragments.  Two
graphs that agree on these nodes, with two libraries that agree on these fragments and two
maps that agree on these resources, are lowered alike.

Main definitions:

- `LowerEnv.rebind` is a setting with another library and another map of resources, and
  `LowerEnv.SharesFrom` says that they agree with the old ones on what is asked for from
  some roots.
- `Fragment.Alike` and `Compilable.Alike` say that two items differ in unreachable nodes
  and in their parameters at most.

Main results:

- `lowerGraph_congr` and `lowerBsdf_congr`: lowering depends on what it reaches.
- `Compilation.lowerItem_congr`: so does the code of an item.
-/

namespace Shading

open List

/-- The options with another choice of whether constant fields may be compiled, which is no
concern of lowering. -/
def Options.withConstants (o : Options) (b : Bool) : Options :=
  { o with compileConstants := b }

/-- The options with another number of texture results, which is a concern of distributions
only. -/
def Options.withTextureResults (o : Options) (n : Nat) : Options :=
  { o with numTextureResults := n }

/-- The setting with another library, another map of resources, another choice for constant
fields and another number of texture results. -/
def LowerEnv.rebind (env : LowerEnv) (names : Resolver) (m : ResourceMap) (b : Bool) (n : Nat) :
    LowerEnv :=
  { env with
    resolver := names
    resources := m
    options := (env.options.withConstants b).withTextureResults n }

/-- A map has the bindings of the setting for some references. -/
def LowerEnv.BindsAlike (env : LowerEnv) (m : ResourceMap) (refs : List ResourceRef) : Prop :=
  ∀ ref ∈ refs, m.find? ref = env.resources.find? ref

/-- A library has the fragments of another one that are called from some roots. -/
def Resolver.SharesCalls (names names' : Resolver) (g : Graph) (roots : List Nat) : Prop :=
  ∀ name, names.Calls g roots name → names'.resolve? name = names.resolve? name

/-- A library and a map have what lowering asks the setting for from some roots: the
fragments that are called, and the bindings of what is met. -/
structure LowerEnv.SharesFrom (env : LowerEnv) (names : Resolver) (m : ResourceMap) (g : Graph)
    (roots : List Nat) : Prop where
  calls : env.resolver.SharesCalls names g roots
  binds : ∀ v, env.resolver.Meets g roots v → env.BindsAlike m v.resources

namespace LowerEnv.SharesFrom

variable {env : LowerEnv} {names : Resolver} {m : ResourceMap} {g : Graph} {roots : List Nat}

theorem refl (env : LowerEnv) (g : Graph) (roots : List Nat) :
    env.SharesFrom env.resolver env.resources g roots :=
  ⟨fun _ _ => rfl, fun _ _ _ _ => rfl⟩

theorem of_reachable {roots' : List Nat} (h : env.SharesFrom names m g roots)
    (hroots : ∀ r ∈ roots', g.Reachable roots r) : env.SharesFrom names m g roots' :=
  ⟨fun name hname => h.calls name (hname.of_reachable hroots),
    fun v hv => h.binds v (hv.of_reachable hroots)⟩

/-- What is shared from a call is shared from the fragment that is called. -/
theorem callee (h : env.SharesFrom names m g roots) {id : Nat} {name : String} {args : List Nat}
    {type : ValueType} {f : Fragment} (hid : g.Reachable roots id)
    (hnode : g.node? id = some ⟨.call name args, type⟩)
    (hfound : env.resolver.resolve? name = some (.fragment f)) :
    env.SharesFrom names m f.graph f.rootNodes :=
  ⟨fun called hcalls => h.calls called (.call hid hnode hfound hcalls),
    fun v hv => h.binds v (.call hid hnode hfound hv)⟩

theorem resolve? (h : env.SharesFrom names m g roots) {id : Nat} {name : String} {args : List Nat}
    {type : ValueType} (hid : g.Reachable roots id)
    (hnode : g.node? id = some ⟨.call name args, type⟩) :
    names.resolve? name = env.resolver.resolve? name :=
  h.calls name (.here hid hnode)

end LowerEnv.SharesFrom

/-! ## Constants -/

theorem Value.mem_resources_of_flatten {v w : Value} {ref : ResourceRef} (hw : w ∈ v.flatten)
    (href : w.resource? = some ref) : ref ∈ v.resources :=
  mem_filterMap.mpr ⟨w, hw, href⟩

section Constants

variable {env : LowerEnv} {names : Resolver} {m : ResourceMap} {b : Bool} {n : Nat}

theorem indexResolver_agreesOn {v : Value} (h : env.BindsAlike m v.resources)
    (strings : List String) :
    ((env.rebind names m b n).indexResolver strings).AgreesOn (env.indexResolver strings)
      v.flatten where
  strings _ _ := rfl
  resources w hw ref href := by
    have hfound := h ref (Value.mem_resources_of_flatten hw href)
    change ((m.find? ref).map (·.index)).getD 0 = _
    rw [hfound]
    rfl

theorem roBytes_congr {v : Value} (h : env.BindsAlike m v.resources) (t : ValueType)
    (strings : List String) :
    (env.rebind names m b n).roBytes v t strings = env.roBytes v t strings := by
  have hpack := fun (l : Layout) (strings : List String) (address : Nat) =>
    Layout.pack_congr (l := l) v address (@indexResolver_agreesOn _ names _ b n _ h strings)
  unfold LowerEnv.roBytes
  simp only [Layout.setValue, hpack]
  rfl

theorem lowerCompound_congr {v : Value} (h : env.BindsAlike m v.resources) (t : ValueType)
    {parts parts' : LowerM (List Nat)} (hparts : parts' = parts) :
    lowerCompound (env.rebind names m b n) v t parts' = lowerCompound env v t parts := by
  subst hparts
  have hplace : placeConstant (env.rebind names m b n) v t = placeConstant env v t := by
    unfold placeConstant
    simp only [roBytes_congr h]
  unfold lowerCompound
  rw [hplace]

theorem lowerResource_congr {ref : ResourceRef} (h : env.BindsAlike m [ref]) :
    lowerResource (env.rebind names m b n) ref = lowerResource env ref := by
  unfold lowerResource
  rw [← h ref mem_cons_self]
  rfl

mutual

/-- The instructions of a literal depend on the resources in it. -/
theorem lowerConstant_congr (v : Value) (t : ValueType) (h : env.BindsAlike m v.resources) :
    lowerConstant (env.rebind names m b n) v t = lowerConstant env v t := by
  cases v with
  | vector parts | matrix parts | array parts | struct parts =>
    simp only [lowerConstant]
    exact lowerCompound_congr h t (lowerParts_congr parts t 0 h)
  | color x y z =>
    simp only [lowerConstant]
    exact lowerCompound_congr h t rfl
  | texture | lightProfile | bsdfMeasurement =>
    simp only [lowerConstant]
    exact lowerResource_congr h
  | _ => rfl

theorem lowerParts_congr (parts : List Value) (t : ValueType) (index : Nat)
    (h : env.BindsAlike m ((Value.flattenAll parts).filterMap Value.resource?)) :
    lowerParts (env.rebind names m b n) parts t index = lowerParts env parts t index := by
  cases parts with
  | nil => rfl
  | cons v rest =>
    have hsplit : (Value.flattenAll (v :: rest)).filterMap Value.resource?
        = v.resources ++ (Value.flattenAll rest).filterMap Value.resource? :=
      filterMap_append
    rw [hsplit] at h
    have hv := fun t => lowerConstant_congr v t fun ref href =>
      h ref (mem_append_left _ href)
    have hrest := lowerParts_congr rest t (index + 1) fun ref href =>
      h ref (mem_append_right _ href)
    simp only [lowerParts, hv, hrest]

end

end Constants

/-! ## Calls -/

section Calls

variable {env : LowerEnv} {names : Resolver} {m : ResourceMap} {b : Bool} {n : Nat} {g g' : Graph}

/-- A call depends on the nodes of its arguments and on the resources in them. -/
theorem lowerIntrinsic_congr {type : ValueType} {argNodes args : List Nat} (i : Intrinsic)
    (hnodes : ∀ a ∈ argNodes, g.node? a = g'.node? a)
    (hbinds : ∀ a ∈ argNodes, ∀ v t, g.node? a = some ⟨.constant v, t⟩ →
      env.BindsAlike m v.resources) :
    lowerIntrinsic (env.rebind names m b n) ⟨g', type, argNodes, args⟩ i
      = lowerIntrinsic env ⟨g, type, argNodes, args⟩ i := by
  have harg : ∀ index, CallSite.argNode? ⟨g', type, argNodes, args⟩ index
      = CallSite.argNode? ⟨g, type, argNodes, args⟩ index := by
    intro index
    unfold CallSite.argNode?
    cases ha : argNodes[index]? with
    | none => rfl
    | some a => exact (hnodes a (mem_of_getElem? ha)).symm
  have hbinding : constantBinding? (env.rebind names m b n) ⟨g', type, argNodes, args⟩
      = constantBinding? env ⟨g, type, argNodes, args⟩ := by
    unfold constantBinding?
    rw [harg]
    split
    · rename_i value t hnode
      unfold CallSite.argNode? at hnode
      obtain ⟨a, ha, hnode⟩ := Option.bind_eq_some_iff.mp hnode
      have hvalue := hbinds a (mem_of_getElem? ha) value t hnode
      cases href : value.resource? with
      | none => rfl
      | some ref =>
        have hself : value ∈ value.flatten := by
          cases value <;> simp [Value.resource?] at href <;> exact mem_cons_self
        exact hvalue ref (Value.mem_resources_of_flatten hself href)
    · rfl
  cases i with
  | state q =>
    have hcoordinate : lowerTextureCoordinate (env.rebind names m b n) ⟨g', type, argNodes, args⟩
        = lowerTextureCoordinate env ⟨g, type, argNodes, args⟩ := by
      unfold lowerTextureCoordinate
      rw [harg]
      rfl
    simp only [lowerIntrinsic, lowerState]
    cases q <;> first | rfl | (simp only [hcoordinate]; rfl)
  | lookup what =>
    simp only [lowerIntrinsic]
    unfold lowerLookup
    rw [harg]
    rfl
  | resource q =>
    simp only [lowerIntrinsic]
    unfold lowerResourceQuery
    rw [hbinding]
    rfl
  | _ => rfl

end Calls

/-! ## Graphs -/

theorem lift_bind_congr {α β : Type} {e : Except LowerError α} {k k' : α → LowerM β}
    (h : ∀ x, e = .ok x → k' x = k x) :
    ((liftM e : LowerM α) >>= k') = ((liftM e : LowerM α) >>= k) := by
  cases e with
  | error e => rfl
  | ok x => exact h x rfl

theorem mapM_congr_of_mem {α β : Type} {f f' : α → LowerM β} {l : List α}
    (h : ∀ a ∈ l, f' a = f a) : l.mapM f' = l.mapM f := by
  induction l with
  | nil => rfl
  | cons a l ih =>
    simp only [mapM_cons, h a mem_cons_self,
      ih fun a ha => h a (mem_cons_of_mem _ ha)]

section Graphs

variable {env : LowerEnv} {names : Resolver} {m : ResourceMap} {b : Bool} {n : Nat} {g g' : Graph}
  {roots : List Nat}
  {inliner inliner' : Inliner} {source : ParameterSource} {aux : List Nat}

/-- Two inliners agree on the fragments that are called from what some roots reach. -/
def Inliner.AgreesFrom (names : Resolver) (g : Graph) (roots : List Nat)
    (inliner inliner' : Inliner) : Prop :=
  ∀ id name args type f, g.Reachable roots id → g.node? id = some ⟨.call name args, type⟩ →
    names.resolve? name = some (.fragment f) → inliner' name f = inliner name f

theorem lowerNode_congr {id : Nat} {node : Node} (hid : g.Reachable roots id)
    (hnode : g.node? id = some node) (hagrees : g.AgreesFrom g' roots)
    (hshares : env.SharesFrom names m g roots)
    (hinline : Inliner.AgreesFrom env.resolver g roots inliner inliner') (done : Lowered) :
    lowerNode (env.rebind names m b n) inliner' g' source aux done node
      = lowerNode env inliner g source aux done node := by
  obtain ⟨op, type⟩ := node
  cases op with
  | constant value =>
    exact lowerConstant_congr value type (hshares.binds value (.constant hid hnode))
  | parameter index => rfl
  | lambdaResult index => rfl
  | call name args =>
    have hargs : ∀ a ∈ args, g.Reachable roots a := fun a ha => hid.arg hnode ha
    have hcall : ∀ ids, lowerCall (env.rebind names m b n) inliner' name ⟨g', type, args, ids⟩
        = lowerCall env inliner name ⟨g, type, args, ids⟩ := by
      intro ids
      unfold lowerCall
      rw [show (env.rebind names m b n).resolver.resolve? name = env.resolver.resolve? name
        from hshares.resolve? hid hnode]
      cases hfound : env.resolver.resolve? name with
      | none => rfl
      | some resolution =>
        cases resolution with
        | fragment f => exact congrFun (hinline id name args type f hid hnode hfound) ids
        | intrinsic i =>
          exact lowerIntrinsic_congr i (fun a ha => hagrees a (hargs a ha))
            fun a ha v t hv => hshares.binds v (.constant (hargs a ha) hv)
    simp only [lowerNode, hcall]

theorem lowerNodes_congr (hagrees : g.AgreesFrom g' roots)
    (hshares : env.SharesFrom names m g roots)
    (hinline : Inliner.AgreesFrom env.resolver g roots inliner inliner') (ids : List Nat)
    (hids : ∀ id ∈ ids, g.Reachable roots id) (done : Lowered) :
    lowerNodes (env.rebind names m b n) inliner' g' source aux ids done
      = lowerNodes env inliner g source aux ids done := by
  induction ids generalizing done with
  | nil => rfl
  | cons id rest ih =>
    have hid := hids id mem_cons_self
    have ih := ih fun id hid => hids id (mem_cons_of_mem _ hid)
    simp only [lowerNodes, ← hagrees id hid, ih]
    cases hnode : g.node? id with
    | none => rfl
    | some node => simp only [lowerNode_congr hid hnode hagrees hshares hinline]

theorem lowerRoots_congr (hagrees : g.AgreesFrom g' roots)
    (hshares : env.SharesFrom names m g roots)
    (hinline : Inliner.AgreesFrom env.resolver g roots inliner inliner') :
    lowerRoots (env.rebind names m b n) inliner' g' roots source aux
      = lowerRoots env inliner g roots source aux := by
  unfold lowerRoots
  rw [← Graph.postOrder_congr hagrees, lowerNodes_congr hagrees hshares hinline]
  intro id hid
  exact (Graph.mem_postOrder_iff.mp hid).1

/-- Calls of fragments depend on the fragments that are called and the resources that are met
from there. -/
theorem inlinerAt_congr (budget : Nat) (hshares : env.SharesFrom names m g roots) :
    Inliner.AgreesFrom env.resolver g roots (inlinerAt env budget)
      (inlinerAt (env.rebind names m b n) budget) := by
  induction budget generalizing g roots with
  | zero => exact fun _ _ _ _ _ _ _ _ => rfl
  | succ budget ih =>
    intro id name args type f hid hnode hfound
    funext passed
    refine lift_bind_congr fun body hbody => ?_
    have hcallee : env.SharesFrom names m f.graph [body] := by
      rw [← rootNodes_of_calleeBody hbody]
      exact hshares.callee hid hnode hfound
    rw [lowerRoots_congr (.refl f.graph [body]) hcallee (ih hcallee)]

/-- Lowering a graph depends on the nodes that the roots reach, and on the fragments that are
called and the resources that are met from there. -/
theorem lowerGraph_congr (budget : Nat) (hagrees : g.AgreesFrom g' roots)
    (hshares : env.SharesFrom names m g roots) :
    lowerGraph (env.rebind names m b n) budget g' roots source aux
      = lowerGraph env budget g roots source aux :=
  lowerRoots_congr hagrees hshares (inlinerAt_congr budget hshares)

theorem lowerRoot_congr {root : Nat} (hagrees : g.AgreesFrom g' [root])
    (hshares : env.SharesFrom names m g [root]) :
    lowerRoot (env.rebind names m b n) g' root source aux = lowerRoot env g root source aux := by
  unfold lowerRoot
  rw [lowerGraph_congr LowerError.nestingLimit hagrees hshares]

/-- A distribution is a call of a building block. -/
theorem bsdfAt_eq_ok {id : Nat} {node : BsdfNode} {name : String} {args : List Nat}
    (h : bsdfAt env g id = .ok (node, name, args)) :
    env.resolver.resolve? name = some (.intrinsic (.bsdf node)) ∧
      ∃ type, g.node? id = some ⟨.call name args, type⟩ := by
  unfold bsdfAt at h
  split at h
  · cases h
  · rename_i hnode
    split at h
    · rename_i hresolve
      cases h
      exact ⟨hresolve, _, hnode⟩
    · cases h
  · cases h

/-- Lowering a distribution depends on what its node reaches. -/
theorem lowerBsdf_congr (kind : FunctionKind) (hagrees : g.AgreesFrom g' roots)
    (hshares : env.SharesFrom names m g roots) (id : Nat) (hid : g.Reachable roots id) :
    lowerBsdf (env.rebind names m b n) g' kind source aux id
      = lowerBsdf env g kind source aux id := by
  induction id using Nat.strongRecOn with
  | ind id ih =>
    have hat : bsdfAt (env.rebind names m b n) g' id = bsdfAt env g id := by
      unfold bsdfAt
      rw [← hagrees id hid]
      split
      · rfl
      · rename_i name args type hnode
        rw [show (env.rebind names m b n).resolver.resolve? name = env.resolver.resolve? name
          from hshares.resolve? hid hnode]
      · rfl
    rw [lowerBsdf, lowerBsdf, hat]
    refine lift_bind_congr ?_
    rintro ⟨node, name, args⟩ hbsdf
    obtain ⟨-, type, hcall⟩ := bsdfAt_eq_ok hbsdf
    have hargs : ∀ a ∈ args, g.Reachable roots a := fun a ha => hid.arg hcall ha
    have hnode : ∀ a ∈ args, isBsdfNode g' a = isBsdfNode g a := by
      intro a ha
      unfold isBsdfNode
      rw [hagrees a (hargs a ha)]
    have hvalues : g'.valueArgs args = g.valueArgs args :=
      filter_congr fun a ha => by rw [hnode a ha]
    have hlayers : g'.layerArgs args = g.layerArgs args := filter_congr hnode
    have hroot : (g.valueArgs args).mapM
          (fun a => lowerRoot (env.rebind names m b n) g' a source aux)
        = (g.valueArgs args).mapM fun a => lowerRoot env g a source aux := by
      refine mapM_congr_of_mem fun a ha => ?_
      have hreach : ∀ r ∈ [a], g.Reachable roots r := by
        intro r hr
        rw [mem_singleton.mp hr]
        exact hargs a (mem_filter.mp ha).1
      exact lowerRoot_congr (hagrees.of_reachable hreach) (hshares.of_reachable hreach)
    dsimp only
    rw [hvalues, hlayers, hroot]
    congr 1
    funext values
    congr 1
    funext _
    congr 1
    refine mapM_congr_of_mem fun layer hlayer => ?_
    split
    · rename_i hlt
      exact ih layer hlt (hargs layer (mem_filter.mp hlayer).1)
    · rfl

end Graphs

/-! ## Items -/

/-- Two fragments of one name that compute the same.  They may differ in nodes that are not
reached, in what is known of parameters and resources, and in where nodes come from. -/
structure Fragment.Alike (f f' : Fragment) : Prop where
  name : f'.name = f.name
  context : f'.context = f.context
  roots : f'.roots = f.roots
  uniform : f'.uniform = f.uniform
  graph : f.graph.AgreesFrom f'.graph f.rootNodes

theorem Fragment.Alike.refl (f : Fragment) : f.Alike f :=
  ⟨rfl, rfl, rfl, rfl, .refl _ _⟩

theorem Fragment.Alike.rootNodes {f f' : Fragment} (h : f.Alike f') :
    f'.rootNodes = f.rootNodes := by
  unfold Fragment.rootNodes
  rw [h.roots]

theorem Fragment.Alike.rootType? {f f' : Fragment} (h : f.Alike f') (index : Nat) :
    f'.rootType? index = f.rootType? index := by
  unfold Fragment.rootType?
  rw [h.rootNodes]
  cases hroot : f.rootNodes[index]? with
  | none => rfl
  | some root =>
    have hnode := h.graph root (.root (mem_of_getElem? hroot))
    simp only [Option.bind_some, hnode]

/-- Two items of one kind whose fragments compute the same. -/
inductive Compilable.Alike : Compilable → Compilable → Prop
  | function {f f' : Fragment} {kind : FunctionKind} (h : f.Alike f') :
      Compilable.Alike (.function f kind) (.function f' kind)
  | distribution {d d' : Distribution} (hmain : d.main.Alike d'.main)
      (haux : Forall₂ Fragment.Alike d.aux d'.aux) :
      Compilable.Alike (.distribution d) (.distribution d')

theorem Compilable.Alike.refl (item : Compilable) : item.Alike item := by
  cases item with
  | function f kind => exact .function (.refl f)
  | distribution d => exact .distribution (.refl _) (forall₂_same.mpr fun f _ => .refl f)

/-- Lowering an item meets a literal in one of its fragments. -/
def Compilable.Meets (item : Compilable) (names : Resolver) (v : Value) : Prop :=
  ∃ f ∈ item.fragments, names.Meets f.graph f.rootNodes v

/-- A library has the fragments of another one that an item calls. -/
def Compilable.SharesCalls (item : Compilable) (names names' : Resolver) : Prop :=
  ∀ f ∈ item.fragments, names.SharesCalls names' f.graph f.rootNodes

theorem Compilable.SharesCalls.refl (item : Compilable) (names : Resolver) :
    item.SharesCalls names names :=
  fun _ _ _ _ => rfl

/-- The settings with another library and another choice for constant fields. -/
def AssemblySettings.rebind (s : AssemblySettings) (names : Resolver) (b : Bool) :
    AssemblySettings :=
  { s with resolver := names, options := s.options.withConstants b }

namespace Assembly

variable {s : AssemblySettings} {names : Resolver} {m m' : ResourceMap} {b : Bool}

/-- The job of a fragment that computes the same is the same. -/
theorem fragmentJob_congr {f f' : Fragment} (halike : f.Alike f')
    (hcalls : s.resolver.SharesCalls names f.graph f.rootNodes)
    (hbinds : ∀ v, s.resolver.Meets f.graph f.rootNodes v →
      ∀ ref ∈ v.resources, m'.find? ref = m.find? ref)
    (kind : FunctionKind) (block : Option BlockBinding) :
    fragmentJob (s.rebind names b) f' m' kind block = fragmentJob s f m kind block := by
  have hlower : ∀ source,
      lowerGraph ((s.lowerEnv f m).rebind names m' b s.options.numTextureResults)
        LowerError.nestingLimit f'.graph f.rootNodes source []
        = lowerGraph (s.lowerEnv f m) LowerError.nestingLimit f.graph f.rootNodes source [] :=
    fun source => lowerGraph_congr LowerError.nestingLimit halike.graph ⟨hcalls, hbinds⟩
  have henv : (s.rebind names b).lowerEnv f' m'
      = (s.lowerEnv f m).rebind names m' b s.options.numTextureResults := by
    unfold AssemblySettings.lowerEnv
    rw [halike.context, halike.uniform]
    rfl
  unfold fragmentJob
  rw [henv, halike.rootNodes, hlower, halike.name, halike.context]

/-- Auxiliary fragments that compute the same are lowered alike. -/
theorem lowerAux_congr {env : LowerEnv} {kind : FunctionKind} {source : ParameterSource}
    {fs fs' : List Fragment} (halike : Forall₂ Fragment.Alike fs fs')
    (hshares : ∀ f ∈ fs, env.SharesFrom names m f.graph f.rootNodes) (index : Nat) :
    lowerAux (env.rebind names m b env.options.numTextureResults) kind source index fs'
      = lowerAux env kind source index fs := by
  induction halike generalizing index with
  | nil => rfl
  | @cons f f' rest rest' hf hrest ih =>
    have ih := fun index => ih (fun f hf => hshares f (mem_cons_of_mem _ hf)) index
    have hroot : ∀ root ∈ f.rootNodes,
        lowerRoot (env.rebind names m b env.options.numTextureResults) f'.graph root source []
          = lowerRoot env f.graph root source [] := by
      intro root hmem
      have hreach : ∀ r ∈ [root], f.graph.Reachable f.rootNodes r := by
        intro r hr
        rw [mem_singleton.mp hr]
        exact .root hmem
      exact lowerRoot_congr (hf.graph.of_reachable hreach)
        ((hshares f mem_cons_self).of_reachable hreach)
    unfold lowerAux lowerAuxRoot
    rw [hf.rootType?, hf.rootNodes]
    split
    · rename_i hroots
      rw [hroot _ (hroots ▸ mem_cons_self)]
      simp only [ih]
      rfl
    · rfl

/-- The entry points of distributions that compute the same are lowered alike. -/
theorem lowerEntry_congr {env : LowerEnv} {d d' : Distribution} (hmain : d.main.Alike d'.main)
    (haux : Forall₂ Fragment.Alike d.aux d'.aux)
    (hshares : ∀ f ∈ d.main :: d.aux, env.SharesFrom names m f.graph f.rootNodes) {root : Nat}
    (hroot : root ∈ d.main.rootNodes) (kind : FunctionKind) (source : ParameterSource) :
    lowerEntry (env.rebind names m b env.options.numTextureResults) d' root kind source
      = lowerEntry env d root kind source := by
  have hlowerAux := @lowerAux_congr names m b env kind source _ _ haux
    (fun f hf => hshares f (mem_cons_of_mem _ hf)) 0
  have hlowerBsdf := fun aux => @lowerBsdf_congr env names m b
    env.options.numTextureResults d.main.graph d'.main.graph d.main.rootNodes source aux kind
    hmain.graph (hshares d.main mem_cons_self) root (.root hroot)
  unfold lowerEntry
  rw [hlowerAux]
  simp only [hlowerBsdf]

/-- The jobs of items that compute the same are the same. -/
theorem jobs_congr {item item' : Compilable} (halike : item.Alike item')
    (hcalls : item.SharesCalls s.resolver names)
    (hbinds : ∀ v, item.Meets s.resolver v → ∀ ref ∈ v.resources, m'.find? ref = m.find? ref)
    (block : Option BlockBinding) :
    item'.jobs (s.rebind names b) m' block = item.jobs s m block := by
  unfold Compilable.jobs
  cases halike with
  | @function f f' kind h =>
    have hcheck : checkRoots f' kind = checkRoots f kind := by
      unfold checkRoots
      rw [h.roots, h.name]
    dsimp only [fragmentJobs]
    rw [hcheck, h.name, fragmentJob_congr h (hcalls f mem_cons_self)
      fun v hv => hbinds v ⟨f, mem_cons_self, hv⟩]
  | @distribution d d' hmain haux =>
    have hname : d'.name = d.name := hmain.name
    have henv : (s.rebind names b).distributionEnv d' m'
        = (s.distributionEnv d m).rebind names m' b s.options.numTextureResults := by
      unfold AssemblySettings.distributionEnv
      rw [hmain.context]
      rfl
    dsimp only [distributionJobs]
    rw [hmain.rootNodes, henv]
    cases hroots : d.main.rootNodes with
    | nil => rw [hname]
    | cons root rest =>
      have hjob : entryJob
          ((s.distributionEnv d m).rebind names m' b s.options.numTextureResults) d' root block
          = entryJob (s.distributionEnv d m) d root block := by
        funext entry
        have hentry := @lowerEntry_congr names m' b (s.distributionEnv d m) d d' hmain haux
          (fun f hf => ⟨hcalls f hf, fun v hv => hbinds v ⟨f, hf, hv⟩⟩) root
          (hroots ▸ mem_cons_self) entry.1 (BlockBinding.source block)
        unfold entryJob entryRoutine
        rw [hname, hmain.context]
        exact congrArg _ hentry
      dsimp only
      rw [hjob]

theorem lowerJobs_withConstants (o : Options) (b : Bool) (jobs : List Job) (a : Assembly) :
    lowerJobs (o.withConstants b) jobs a = lowerJobs o jobs a := by
  induction jobs generalizing a with
  | nil => rfl
  | cons job rest ih =>
    have hroutine : a.lowerRoutine (o.withConstants b) job.header job.code
        = a.lowerRoutine o job.header job.code := rfl
    unfold lowerJobs
    simp only [ih, hroutine]

end Assembly

/-- The code of an item depends on what its fragments reach, on the fragments that they call,
and on the bindings of the resources that lowering meets there.  It does not depend on whether
constant fields may be compiled. -/
theorem Compilation.lowerItem_rebind (c : Compilation) (s s' : Surroundings)
    {item item' : Compilable} (halike : item.Alike item')
    (hcalls : item.SharesCalls s.library s'.library) {m m' : ResourceMap}
    (hbinds : ∀ v, item.Meets s.library v → ∀ ref ∈ v.resources, m'.find? ref = m.find? ref)
    (block : Option BlockBinding) (b : Bool) :
    lowerItem { c with options := c.options.withConstants b } s' item' m' block
      = c.lowerItem s item m block := by
  have hjobs := Assembly.jobs_congr (s := c.settings s) (b := b) halike hcalls hbinds block
  unfold lowerItem
  rw [← hjobs]
  unfold Assembly.addJobs
  simp only [Assembly.lowerJobs_withConstants]
  rfl

end Shading
