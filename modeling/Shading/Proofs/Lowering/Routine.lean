import Shading.Proofs.Lowering.Expression

/-!
# The steps of whole routines

Graphs, distributions and their auxiliary fragments are lowered by steps, and the results
and stores of a routine are instructions of it.

Main definitions:

- `BsdfValue` is the value of a distribution for an entry point.
- `RoutineResult.Within` says that results and stores refer to what is there.

Main results:

- Theorem `lowerGraph_emitsAll`: graphs, with calls of fragments nested to any depth.
- Theorem `lowerBsdf_advances`: distributions, by what becomes of their layers and values.
- Theorem `lowerBsdf_right`: the instruction of a distribution computes its value.
- Theorem `Assembly.lowerEntry_within`: entry points of distributions.
-/

namespace Shading

open List

variable {V : Type} {g : Graph} {source : ParameterSource} {id : Nat} {done : Lowered}

variable {env : LowerEnv} {Loads : Nat → Nat → ValueType → Prop} {s : LowerState}

/-! ## Graphs -/

/-- Graphs are lowered by steps, however deep calls nest. -/
theorem lowerGraph_emitsAll (budget : Nat) {g : Graph} {source : ParameterSource}
    {aux : List Nat} (roots : List Nat) (hsource : Supplied Loads g source s)
    (haux : ∀ a ∈ aux, a < s.body.size) :
    EmitsAll (env.Admits Loads) (lowerGraph env budget g roots source aux) s := by
  obtain ⟨scope, hprovides⟩ := hsource.exists_provides (fun _ _ _ => ()) haux
  exact (lowerGraph_right budget roots hprovides hsource).mono fun _ _ h => below_of_right h

section

variable {I : Interpretation V} {scope : Scope V} {aux : List Nat}

/-- The instruction of a root is right. -/
theorem lowerRoot_right (root : Nat) (hsource : Provides I s.body source aux scope)
    (hsupplied : Supplied Loads g source s) :
    Advances (env.Admits Loads) (lowerRoot env g root source aux) s fun id s' =>
      Right env I g scope s' root id := by
  refine (lowerGraph_right _ [root] hsource hsupplied).bind fun ids s₁ _ hids => ?_
  cases hids with
  | cons hid hnil =>
    cases hnil
    exact .pure hid

theorem lowerRoot_emits (root : Nat) (hsource : Supplied Loads g source s)
    (haux : ∀ a ∈ aux, a < s.body.size) :
    Emits (env.Admits Loads) (lowerRoot env g root source aux) s := by
  obtain ⟨scope, hprovides⟩ := hsource.exists_provides (fun _ _ _ => ()) haux
  exact (lowerRoot_right root hprovides hsource).mono fun _ _ ⟨_, hx, _⟩ => lt_size_of_valueAt hx

end

/-! ## Values of distributions -/

/-- A tint scales what is evaluated, and lets everything else pass. -/
def tintValue (I : Interpretation V) (kind : FunctionKind) (tint inner : V) : V :=
  if kind = .dfEvaluate then I (distributionResult kind).storage (.binary .mul) [tint, inner]
  else inner

/-- A weighted layer mixes its layers, or leaves it to a runtime function to sample one. -/
def mixValue (I : Interpretation V) (kind : FunctionKind) (weight top base : V) : V :=
  if kind = .dfSample then
    I (distributionResult kind).storage (.runtimeCall "bsdf_layer_sample") [weight, top, base]
  else I (distributionResult kind).storage (.ternary .lerp) [base, top, weight]

/-- The value of a distribution for an entry point. -/
inductive BsdfValue (env : LowerEnv) (I : Interpretation V) (pool : DataPool) (g : Graph)
    (kind : FunctionKind) (scope : Scope V) : Nat → V → Prop
  | tint {id a layer : Nat} {name : String} {args : List Nat} {x y : V} :
    bsdfAt env g id = .ok (.tint, name, args) → g.layerArgs args = [layer] →
    g.valueArgs args = [a] → NodeValue env I pool g scope a x →
    BsdfValue env I pool g kind scope layer y →
    BsdfValue env I pool g kind scope id (tintValue I kind x y)
  | weightedLayer {id a top base : Nat} {name : String} {args : List Nat} {x y z : V} :
    bsdfAt env g id = .ok (.weightedLayer, name, args) → g.layerArgs args = [top, base] →
    g.valueArgs args = [a] → NodeValue env I pool g scope a x →
    BsdfValue env I pool g kind scope top y → BsdfValue env I pool g kind scope base z →
    BsdfValue env I pool g kind scope id (mixValue I kind x y z)
  | leaf {id : Nat} {node : BsdfNode} {name : String} {args : List Nat} {xs : List V} :
    bsdfAt env g id = .ok (node, name, args) → node ≠ .tint → node ≠ .weightedLayer →
    Forall₂ (NodeValue env I pool g scope) (g.valueArgs args) xs →
    BsdfValue env I pool g kind scope id (I (distributionResult kind).storage
      (.runtimeCall ("bsdf_" ++ node.runtimeName ++ "_" ++ distributionSuffix kind)) xs)

/-! ## Distributions -/

/-- A distribution is lowered by steps: values first, then layers, then what becomes of them.  The
induction follows the layers, which are earlier nodes of the graph. -/
theorem lowerBsdf_advances {P : LowerState → Instr → Prop} {kind : FunctionKind} {aux : List Nat}
    {Q R : Nat → Nat → LowerState → Prop}
    (hvalue : ∀ {a id s s'}, Q a id s → s.Steps P s' → Q a id s')
    (hlayer : ∀ {a id s s'}, R a id s → s.Steps P s' → R a id s')
    (hroot : ∀ a s', s.Steps P s' → Advances P (lowerRoot env g a source aux) s' (Q a))
    (hcombine : ∀ {id node name args values layers s'}, bsdfAt env g id = .ok (node, name, args) →
      checkBsdf node name (g.layerArgs args).length (g.valueArgs args).length = .ok () →
      s.Steps P s' → Forall₂ (Q · · s') (g.valueArgs args) values →
      Forall₂ (R · · s') (g.layerArgs args) layers →
      Advances P (combineBsdf kind node layers values) s' (R id)) (id : Nat) :
    Advances P (lowerBsdf env g kind source aux id) s (R id) := by
  induction id using Nat.strongRecOn generalizing s with
  | ind id ih =>
    rw [lowerBsdf]
    refine (Advances.lift _ s).bind ?_
    rintro ⟨node, name, args⟩ s₁ - ⟨hat, rfl⟩
    refine (mapM_advances (R := Q) hvalue fun a _ => hroot a).bind fun values s₂ h₂ hvalues => ?_
    refine (Advances.lift _ s₂).bind ?_
    rintro _ _ - ⟨hcheck, rfl⟩
    refine (mapM_advances (R := R) hlayer fun layer _ s₃ h₃ => ?_).bind fun layers s₃ h₃ hlayers =>
      hcombine hat hcheck (h₂.trans h₃) (hvalues.imp fun _ _ h => hvalue h h₃) hlayers
    split
    · rename_i hlt
      exact ih layer hlt (fun a s' hs' => hroot a s' ((h₂.trans h₃).trans hs'))
        fun hat hcheck hs' => hcombine hat hcheck ((h₂.trans h₃).trans hs')
    · exact .throw

/-- Where the numbers of layers and values fit, what is no tint and no weighted layer by its form is
none by its kind. -/
theorem isLeaf_of_checkBsdf {node : BsdfNode} {name : String} {layers values : List Nat}
    (h : checkBsdf node name layers.length values.length = .ok ())
    (htint : ∀ inner tint, node = .tint → layers = [inner] → values = [tint] → False)
    (hlayer : ∀ top base weight, node = .weightedLayer → layers = [top, base] →
      values = [weight] → False) : node ≠ .tint ∧ node ≠ .weightedLayer := by
  constructor
  · rintro rfl
    obtain ⟨hone, hvalue⟩ : layers.length = 1 ∧ values.length = 1 := by
      simpa [checkBsdf] using h
    obtain ⟨inner, rfl⟩ := length_eq_one_iff.mp hone
    obtain ⟨tint, rfl⟩ := length_eq_one_iff.mp hvalue
    exact htint inner tint rfl rfl rfl
  · rintro rfl
    obtain ⟨htwo, hvalue⟩ : layers.length = 2 ∧ values.length = 1 := by
      simpa [checkBsdf] using h
    obtain ⟨top, base, rfl⟩ := length_eq_two.mp htwo
    obtain ⟨weight, rfl⟩ := length_eq_one_iff.mp hvalue
    exact hlayer top base weight rfl rfl rfl

section

variable {I : Interpretation V} {scope : Scope V} {aux : List Nat}

/-- Right instructions of arguments hold their values, in order. -/
theorem exists_forall₂_values {nodes ids : List Nat}
    (h : Forall₂ (Right env I g scope s) nodes ids) :
    ∃ xs, HaveValues I s.body ids xs ∧
      ∀ p, s.pool.Grows p → Forall₂ (NodeValue env I p g scope) nodes xs := by
  induction h with
  | nil => exact ⟨[], .nil, fun _ _ => .nil⟩
  | cons ha _ ih =>
    obtain ⟨x, hx, hnode⟩ := ha
    obtain ⟨xs, hxs, hnodes⟩ := ih
    exact ⟨x :: xs, .cons hx hxs, fun p hp => .cons (hnode p hp) (hnodes p hp)⟩

/-- An instruction that computes the value of a distribution. -/
def BsdfRight (env : LowerEnv) (I : Interpretation V) (g : Graph) (kind : FunctionKind)
    (scope : Scope V) (s : LowerState) (node id : Nat) : Prop :=
  ∃ x, valueAt I s.body id = some x ∧
    ∀ p, s.pool.Grows p → BsdfValue env I p g kind scope node x

theorem BsdfRight.of_grows {kind : FunctionKind} {s' : LowerState} {node : Nat}
    (h : BsdfRight env I g kind scope s node id) (hs : s.Grows s') :
    BsdfRight env I g kind scope s' node id := by
  obtain ⟨x, hx, hvalue⟩ := h
  exact ⟨x, valueAt_of_extends_some hs.body hx, fun p hp => hvalue p (hs.pool.trans hp)⟩

/-- Right instructions of layers and values become a right instruction of the distribution. -/
theorem combineBsdf_right {kind : FunctionKind} {node : BsdfNode} {name : String}
    {args values layers : List Nat} (hat : bsdfAt env g id = .ok (node, name, args))
    (hcheck : checkBsdf node name (g.layerArgs args).length (g.valueArgs args).length = .ok ())
    (hvalues : Forall₂ (Right env I g scope s) (g.valueArgs args) values)
    (hlayers : Forall₂ (BsdfRight env I g kind scope s) (g.layerArgs args) layers) :
    Advances (env.Admits Loads) (combineBsdf kind node layers values) s fun instr s' =>
      BsdfRight env I g kind scope s' id instr := by
  -- What is emitted has a value, which is that of the distribution.
  have hemit : ∀ {o : Op} {vs : List V}, HaveValues I s.body o.operands vs → o.flag? = none →
      Admissible env.options env.rules Loads s.pool ⟨(distributionResult kind).storage, o⟩ →
      (∀ p, s.pool.Grows p → BsdfValue env I p g kind scope id
        (I (distributionResult kind).storage o.operator vs)) →
      Advances (env.Admits Loads) (emit (distributionResult kind) o) s fun instr s' =>
        BsdfRight env I g kind scope s' id instr := by
    intro o vs hops hflag hi hvalue
    refine (emit_computes hops (.silent hflag hi)).and_steps.mono fun instr s₂ h => ?_
    exact ⟨_, h.2.2, fun p hp => hvalue p (h.1.grows.pool.trans hp)⟩
  rw [hvalues.length_eq, hlayers.length_eq] at hcheck
  generalize hvalueArgs : g.valueArgs args = valueNodes at hvalues
  generalize hlayerArgs : g.layerArgs args = layerNodes at hlayers
  unfold combineBsdf
  split
  · obtain _ | ⟨⟨x, hx, hvalue⟩, _ | _⟩ := hvalues
    obtain _ | ⟨⟨y, hy, hinner⟩, _ | _⟩ := hlayers
    have hright := fun p hp => @BsdfValue.tint V env I p g kind scope _ _ _ _ _ _ _ hat
      hlayerArgs hvalueArgs (hvalue p hp) (hinner p hp)
    unfold tintValue at hright
    split
    · rename_i hkind
      simp only [if_pos hkind] at hright
      exact hemit (.cons hx (.cons hy .nil)) rfl trivial hright
    · rename_i hkind
      simp only [if_neg hkind] at hright
      exact .pure ⟨y, hy, hright⟩
  · obtain _ | ⟨⟨x, hx, hvalue⟩, _ | _⟩ := hvalues
    obtain _ | ⟨⟨y, hy, htop⟩, _ | ⟨⟨z, hz, hbase⟩, _ | _⟩⟩ := hlayers
    have hright := fun p hp => @BsdfValue.weightedLayer V env I p g kind scope _ _ _ _ _ _ _ _ _
      hat hlayerArgs hvalueArgs (hvalue p hp) (htop p hp) (hbase p hp)
    unfold mixValue at hright
    split
    · rename_i hkind
      simp only [if_pos hkind] at hright
      exact hemit (.cons hx (.cons hy (.cons hz .nil))) (flag?_runtimeCall rfl (by decide))
        trivial hright
    · rename_i hkind
      simp only [if_neg hkind] at hright
      exact hemit (.cons hz (.cons hy (.cons hx .nil))) rfl trivial hright
  · rename_i htint hlayer
    obtain ⟨htint, hlayer⟩ := isLeaf_of_checkBsdf hcheck htint hlayer
    obtain ⟨xs, hxs, hnodes⟩ := exists_forall₂_values hvalues
    refine hemit hxs ?_ trivial fun p hp => .leaf hat htint hlayer (hvalueArgs ▸ hnodes p hp)
    rw [String.append_assoc, String.append_assoc]
    refine flag?_runtimeCall (c := 'b') ?_ (by decide)
    rw [String.toList_append]
    rfl

/-- The instruction of a distribution computes its value. -/
theorem lowerBsdf_right (kind : FunctionKind) (id : Nat)
    (hsource : Provides I s.body source aux scope) (hsupplied : Supplied Loads g source s) :
    Advances (env.Admits Loads) (lowerBsdf env g kind source aux id) s fun instr s' =>
      BsdfRight env I g kind scope s' id instr :=
  lowerBsdf_advances (Q := fun a id s => Right env I g scope s a id)
    (R := fun a id s => BsdfRight env I g kind scope s a id) (fun h hs => h.of_grows hs.grows)
    (fun h hs => h.of_grows hs.grows) (fun a _ hs' =>
      lowerRoot_right a (hsource.of_extends hs'.grows.body) (hsupplied.of_steps hs'))
    (fun hat hcheck _ => combineBsdf_right hat hcheck) id

theorem lowerBsdf_emits (kind : FunctionKind) (id : Nat) (hsource : Supplied Loads g source s)
    (haux : ∀ a ∈ aux, a < s.body.size) :
    Emits (env.Admits Loads) (lowerBsdf env g kind source aux id) s := by
  obtain ⟨scope, hprovides⟩ := hsource.exists_provides (fun _ _ _ => ()) haux
  exact (lowerBsdf_right kind id hprovides hsource).mono fun _ _ ⟨_, hx, _⟩ => lt_size_of_valueAt hx

end

/-! ## Entry points -/

/-- Results are instructions, and stores put instructions into texture results that
exist, from `first` on and each at most once; where there are stores, this was noted. -/
structure RoutineResult.Within (r : RoutineResult) (first count : Nat) (s : LowerState) :
    Prop where
  results : ∀ id ∈ r.results, id < s.body.size
  stores : ∀ st ∈ r.stores, st.2 < s.body.size
  slots : ∀ st ∈ r.stores, first ≤ st.1 ∧ st.1 < count
  distinct : (r.stores.map Prod.fst).Nodup
  noted : r.stores ≠ [] → s.usage.has .textureResults = true

/-- Results without stores. -/
theorem RoutineResult.within_of_results {results : List Nat} {first count : Nat}
    (h : ∀ id ∈ results, id < s.body.size) : RoutineResult.Within ⟨results, []⟩ first count s :=
  ⟨h, by simp, by simp, .nil, fun hne => absurd rfl hne⟩

namespace Assembly

variable {source : ParameterSource}

/-- One auxiliary fragment in front of the others; `stores` holds its store, if it has
one. -/
theorem within_cons {others : RoutineResult} {index count : Nat} {stores : List (Nat × Nat)}
    (hid : id < s.body.size) (hothers : others.Within (index + 1) count s)
    (hstores : stores = [] ∨ stores = [(index, id)] ∧ index < count ∧
      s.usage.has .textureResults = true) :
    RoutineResult.Within ⟨id :: others.results, stores ++ others.stores⟩ index count s := by
  have hslots : ∀ st ∈ others.stores, index ≤ st.1 ∧ st.1 < count := by
    intro st hst
    have := hothers.slots st hst
    omega
  have hresults : ∀ a ∈ id :: others.results, a < s.body.size := by
    intro a ha
    rcases mem_cons.mp ha with rfl | ha
    · exact hid
    · exact hothers.results a ha
  rcases hstores with rfl | ⟨rfl, hindex, hnoted⟩
  · exact ⟨hresults, hothers.stores, hslots, hothers.distinct, hothers.noted⟩
  · refine ⟨hresults, fun st hst => ?_, fun st hst => ?_, ?_, fun _ => hnoted⟩
    · rcases mem_cons.mp hst with rfl | hst
      · exact hid
      · exact hothers.stores st hst
    · rcases mem_cons.mp hst with rfl | hst
      · exact ⟨Nat.le_refl _, hindex⟩
      · exact hslots st hst
    · refine nodup_cons.mpr ⟨fun hmem => ?_, hothers.distinct⟩
      obtain ⟨st, hst, heq⟩ := mem_map.mp hmem
      have := (hothers.slots st hst).1
      dsimp only at heq
      omega

theorem lowerAuxRoot_advances (kind : FunctionKind) (index : Nat)
    (type : ValueType) (root : Nat) (hsource : Supplied Loads g source s) :
    Advances (env.Admits Loads) (lowerAuxRoot env kind source index g type root) s fun id s' =>
      id < s'.body.size ∧
        ((isCached env.options.numTextureResults index type && decide (kind = .dfInit)) = true →
          s'.usage.has .textureResults = true) := by
  unfold lowerAuxRoot
  dsimp only
  split
  · rename_i hread
    refine (emit_noted_computes (I := fun _ _ _ => ()) (o := .textureResult index) .nil rfl
      trivial (lt_of_isCached hread.1)).mono fun id s' hid => ⟨hid.1, fun hinit => ?_⟩
    exact absurd (of_decide_eq_true (Bool.and_eq_true_iff.mp hinit).2) hread.2
  · refine (lowerRoot_emits root hsource (forall_mem_nil _)).bind
      fun id s₁ _ hid => ?_
    unfold noteCached
    split
    · refine (noteUsage_advances _ s₁).bind ?_
      rintro _ _ - rfl
      exact .pure ⟨hid, fun _ => StateUsage.has_insert_self _ _⟩
    · rename_i hcached
      exact .pure ⟨hid, fun hinit => absurd (Bool.and_eq_true_iff.mp hinit).1 hcached⟩

theorem lowerAux_within (kind : FunctionKind) (index : Nat) (fragments : List Fragment)
    (hsource : ∀ f ∈ fragments, Supplied Loads f.graph source s) :
    Advances (env.Admits Loads) (lowerAux env kind source index fragments) s
      fun r s' => r.Within index env.options.numTextureResults s' := by
  induction fragments generalizing index s with
  | nil => exact .pure (RoutineResult.within_of_results (by simp))
  | cons f rest ih =>
    cases htype : f.rootType? 0 with
    | none =>
      rw [lowerAux_of_untyped htype]
      exact .throw
    | some type =>
      obtain ⟨root, more, hroots⟩ := exists_root_of_type htype
      rw [lowerAux_cons htype hroots]
      refine (lowerAuxRoot_advances kind index type root (hsource f mem_cons_self)).bind
        fun id s₁ h₁ hid => ?_
      refine (ih (index + 1) fun f' hf' => (hsource f' (mem_cons_of_mem f hf')).of_steps
        h₁).bind fun others s₂ h₂ hothers => .pure ?_
      refine within_cons (Nat.lt_of_lt_of_le hid.1 h₂.size_le) hothers ?_
      split
      · rename_i hstored
        exact .inr ⟨rfl, lt_of_isCached (Bool.and_eq_true_iff.mp hstored).1,
          h₂.has (hid.2 hstored)⟩
      · exact .inl rfl

/-- A fragment is lowered by steps, and its results are there. -/
theorem lowerFragment_within {f : Fragment} (hsource : Supplied Loads f.graph source s) :
    Advances (env.Admits Loads) (do
      let results ← lowerGraph env LowerError.nestingLimit f.graph f.rootNodes source []
      return RoutineResult.mk results []) s
      fun r s' => r.Within 0 env.options.numTextureResults s' :=
  (lowerGraph_emitsAll _ f.rootNodes hsource (forall_mem_nil _)).bind
    fun _ _ _ hresults => .pure (RoutineResult.within_of_results hresults)

/-- An entry point of a distribution is lowered by steps, and its results and stores refer
to what is there. -/
theorem lowerEntry_within {d : Distribution} (root : Nat)
    (kind : FunctionKind) (hmain : Supplied Loads d.main.graph source s)
    (haux : ∀ f ∈ d.aux, Supplied Loads f.graph source s) :
    Advances (env.Admits Loads) (lowerEntry env d root kind source) s
      fun r s' => r.Within 0 env.options.numTextureResults s' := by
  refine (lowerAux_within kind 0 d.aux haux).bind fun aux s₁ h₁ hwithin => ?_
  split
  · exact .pure ⟨forall_mem_nil _, hwithin.stores,
      hwithin.slots, hwithin.distinct, hwithin.noted⟩
  · refine (lowerBsdf_emits kind root (hmain.of_steps h₁) hwithin.results).bind
      fun result s₂ _ hresult => .pure (RoutineResult.within_of_results ?_)
    simpa using hresult

end Assembly

end Shading
