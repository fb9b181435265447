import Mathlib
import Shading.Proofs.Lowering.Call
import Shading.Proofs.Lowering.Constant
import Shading.Proofs.Lowering.Jobs

/-!
# Lowering of expressions is right

The instructions of a graph compute the values of its nodes.  Nodes are lowered once and
remembered, and a call of a fragment puts the instructions of its body between those of
the caller; since lowering only appends, what was remembered stays right.

Main definitions:

- `Right` says that an instruction computes the value of a node.
- `Provides` ties the places where parameters are read to their values, and `Supplied` says that
  they can be read there.

Main results:

- Theorem `lowerNode_right`: the instruction of a node, if those of its arguments are right.
- Theorem `lowerNodes_right`: the instructions of a list of nodes.
- Theorem `inlinerAt_right`: the code of a call of a fragment, with calls nested to any depth.
- Theorem `lowerGraph_right`: the instructions of the roots of a graph.
- Theorem `lowering_preserves_meaning`: a fragment that is added as a function returns the
  values of its roots.
-/

namespace Shading

open List

variable {node id : Nat} {done : Lowered} {inliner : Inliner}

variable {V : Type}

/-! ## Right instructions -/

/-- An instruction that computes the value of a node.  Data is looked up in any later
pool. -/
def Right (env : LowerEnv) (I : Interpretation V) (g : Graph) (scope : Scope V)
    (s : LowerState) (node id : Nat) : Prop :=
  ∃ x, valueAt I s.body id = some x ∧
    ∀ p, s.pool.Grows p → NodeValue env I p g scope node x

/-- Where parameters and auxiliary results are read, and the values that are found there. -/
inductive Provides (I : Interpretation V) (body : Array Instr) :
    ParameterSource → List Nat → Scope V → Prop
  | none {aux : List Nat} {ys : List V} : HaveValues I body aux ys →
    Provides I body .none aux ⟨fun _ _ => none, ys⟩
  | argBlock {block : Nat} {offsets aux : List Nat} {ys : List V} : HaveValues I body aux ys →
    Provides I body (.argBlock block offsets) aux
      ⟨fun t index => offsets[index]?.map fun offset => I t.storage (.argLoad block offset) [], ys⟩
  | bound {args aux : List Nat} {xs ys : List V} : HaveValues I body args xs →
    HaveValues I body aux ys → Provides I body (.bound args) aux ⟨fun _ index => xs[index]?, ys⟩

section

variable {env : LowerEnv} {Loads : Nat → Nat → ValueType → Prop} {I : Interpretation V} {g : Graph}
  {scope : Scope V} {s : LowerState} {source : ParameterSource} {aux : List Nat}

variable {s' : LowerState}

theorem Right.of_grows (h : Right env I g scope s node id) (hs : s.Grows s') :
    Right env I g scope s' node id := by
  obtain ⟨x, hx, hnode⟩ := h
  exact ⟨x, valueAt_of_extends_some hs.body hx, fun p hp => hnode p (hs.pool.trans hp)⟩

theorem Provides.of_extends {body longer : Array Instr} (h : Provides I body source aux scope)
    (hlonger : Extends body longer) : Provides I longer source aux scope := by
  cases h with
  | none haux => exact .none (haux.of_extends hlonger)
  | argBlock haux => exact .argBlock (haux.of_extends hlonger)
  | bound hargs haux => exact .bound (hargs.of_extends hlonger) (haux.of_extends hlonger)

theorem Provides.aux_values {body : Array Instr} (h : Provides I body source aux scope) :
    HaveValues I body aux scope.aux := by
  cases h with
  | none haux | argBlock haux => exact haux
  | bound _ haux => exact haux

/-- The parameters of a graph can be read: from an argument block at places of their
types, or as instructions that are there. -/
def Supplied (Loads : Nat → Nat → ValueType → Prop) (g : Graph) (source : ParameterSource)
    (s : LowerState) : Prop :=
  match source with
  | .none => True
  | .argBlock block offsets =>
    ∀ {id index offset : Nat} {t : ValueType}, g.node? id = some ⟨.parameter index, t⟩ →
      offsets[index]? = some offset → Loads block offset t.storage
  | .bound args => ∀ a ∈ args, a < s.body.size

theorem Supplied.of_steps {P : LowerState → Instr → Prop}
    (h : Supplied Loads g source s) (hs : s.Steps P s') : Supplied Loads g source s' := by
  cases source with
  | none | argBlock block offsets => exact h
  | bound args => exact below_of_steps hs h

/-- Where parameters can be read, values are found. -/
theorem Supplied.exists_provides (I : Interpretation V) (h : Supplied Loads g source s)
    (haux : ∀ a ∈ aux, a < s.body.size) : ∃ scope, Provides I s.body source aux scope := by
  obtain ⟨ys, hys⟩ := exists_haveValues I haux
  cases source with
  | none => exact ⟨_, .none hys⟩
  | argBlock block offsets => exact ⟨_, .argBlock hys⟩
  | bound args =>
    obtain ⟨xs, hxs⟩ := exists_haveValues I h
    exact ⟨_, .bound hxs hys⟩

/-- An instruction that has the value of a node is right. -/
theorem Right.of_value {x : DataPool → Option V} (hid : id < s.body.size)
    (h : ∀ p, s.pool.Grows p → valueAt I s.body id = x p)
    (hnode : ∀ p, s.pool.Grows p → ∀ y, x p = some y → NodeValue env I p g scope node y) :
    Right env I g scope s node id := by
  obtain ⟨y, hy⟩ := exists_valueAt (I := I) hid
  refine ⟨y, hy, fun p hp => hnode p hp y ?_⟩
  rw [← h p hp, hy]

theorem lowerParameter_computes (h : Provides I s.body source aux scope)
    (hsupplied : Supplied Loads g source s) {t : ValueType} {index : Nat}
    (hnode : g.node? id = some ⟨.parameter index, t⟩) :
    env.Computes Loads I (lowerParameter source t index) s (scope.parameter t index) := by
  cases h with
  | none => exact .throw
  | @argBlock block offsets aux ys haux =>
    unfold lowerParameter
    dsimp only
    cases hoffset : offsets[index]? with
    | none => exact .throw
    | some offset => exact emit_computes .nil (.silent rfl (hsupplied hnode hoffset))
  | @bound args aux xs ys hargs haux =>
    unfold lowerParameter
    dsimp only
    have hindex := hargs.getElem? index
    cases hid : args[index]? with
    | none => exact .throw
    | some id =>
      rw [hid, Option.bind_some] at hindex
      exact .pure ⟨hargs.lt_size id (mem_of_getElem? hid), hindex⟩

/-! ## Remembered nodes -/

/-- A successful look-up of a list finds every entry. -/
theorem forall₂_find?_of_mapM {e : Nat → LowerError} {nodes ids : List Nat}
    (h : (nodes.mapM fun a => match done.find? a with
      | some id => Except.ok id
      | none => Except.error (e a)) = .ok ids) :
    Forall₂ (fun a id => done.find? a = some id) nodes ids := by
  induction nodes generalizing ids with
  | nil =>
    cases h
    exact .nil
  | cons a nodes ih =>
    rw [mapM_cons] at h
    cases hfind : done.find? a with
    | none => simp [hfind, bind, Except.bind] at h
    | some id =>
      cases hrest : (nodes.mapM fun a => match done.find? a with
          | some id => Except.ok id
          | none => Except.error (e a)) with
      | error err => simp [hfind, hrest, bind, Except.bind] at h
      | ok rest =>
        simp only [hfind, hrest, bind, Except.bind, pure, Except.pure] at h
        cases h
        exact .cons hfind (ih hrest)

/-- Every remembered node has a right instruction. -/
def AllRight (env : LowerEnv) (I : Interpretation V) (g : Graph) (scope : Scope V)
    (s : LowerState) (done : Lowered) : Prop :=
  ∀ node id, done.find? node = some id → Right env I g scope s node id

theorem AllRight.of_grows {done : Lowered}
    (h : AllRight env I g scope s done) (hs : s.Grows s') : AllRight env I g scope s' done :=
  fun node id hfind => (h node id hfind).of_grows hs

theorem AllRight.insert (h : AllRight env I g scope s done)
    (hnode : Right env I g scope s node id) : AllRight env I g scope s (done.insert node id) := by
  intro other id' hfind
  rw [OrderedMap.find?_insert (fun a b h₁ h₂ => by omega)] at hfind
  split at hfind
  · rename_i heq
    cases hfind
    exact heq ▸ hnode
  · exact h other id' hfind

/-- Right instructions of arguments hold the values of the arguments. -/
theorem exists_values {args ids : List Nat} (h : Forall₂ (Right env I g scope s) args ids) :
    ∃ xs, HaveValues I s.body ids xs ∧ xs.length = args.length ∧
      ∀ p, s.pool.Grows p → ∀ (k a : Nat) (y : V), args[k]? = some a → xs[k]? = some y →
        NodeValue env I p g scope a y := by
  induction h with
  | nil => exact ⟨[], .nil, rfl, fun p _ k a y ha => by simp at ha⟩
  | cons ha _ ih =>
    obtain ⟨x, hx, hnode⟩ := ha
    obtain ⟨xs, hxs, hlen, hnodes⟩ := ih
    refine ⟨x :: xs, .cons hx hxs, congrArg Nat.succ hlen, ?_⟩
    intro p hp k a y ha hy
    cases k with
    | zero =>
      cases ha
      cases hy
      exact hnode p hp
    | succ k => exact hnodes p hp k a y ha hy

theorem below_of_right {nodes ids : List Nat}
    (h : Forall₂ (Right env I g scope s) nodes ids) : ∀ id ∈ ids, id < s.body.size := by
  obtain ⟨xs, hxs, -⟩ := exists_values h
  exact hxs.lt_size

/-! ## Nodes -/

/-- An inliner whose calls compute the bodies of fragments. -/
def InlinesRight (env : LowerEnv) (Loads : Nat → Nat → ValueType → Prop) (I : Interpretation V)
    (inliner : Inliner) : Prop :=
  ∀ (name : String) (f : Fragment) (args : List Nat) (xs : List V) (s : LowerState),
    HaveValues I s.body args xs →
    Advances (env.Admits Loads) (inliner name f args) s fun id s' => ∃ body,
      f.roots = some (.single body) ∧ f.parameters.length = args.length ∧
        Right env I f.graph (.ofArgs xs) s' body id

/-- The instruction of a node is right, if those of its arguments are. -/
theorem lowerNode_right (hinliner : InlinesRight env Loads I inliner)
    (hsource : Provides I s.body source aux scope) (hsupplied : Supplied Loads g source s)
    (hdone : AllRight env I g scope s done) {node : Node} (hnode : g.node? id = some node) :
    Advances (env.Admits Loads) (lowerNode env inliner g source aux done node) s fun instr s' =>
      Right env I g scope s' id instr := by
  obtain ⟨op, t⟩ := node
  cases op with
  | constant v =>
    exact (lowerConstant_computes v t s).mono fun instr s' h =>
      .of_value h.1 h.2 fun p _ y hy => .constant hnode hy
  | parameter index =>
    exact (lowerParameter_computes hsource hsupplied hnode).mono fun instr s' h =>
      .of_value h.1 (fun p _ => h.2) fun p _ y hy => .parameter hnode hy
  | lambdaResult index =>
    unfold lowerNode
    dsimp only
    have haux := hsource.aux_values.getElem? index
    cases hid : aux[index]? with
    | none => exact .throw
    | some a =>
      rw [hid, Option.bind_some] at haux
      have hlt := hsource.aux_values.lt_size a (mem_of_getElem? hid)
      exact .pure (.of_value hlt (fun p _ => haux) fun p _ y hy => .lambdaResult hnode hy)
  | call name args =>
    refine (Advances.lift _ s).bind ?_
    rintro ids s₁ - ⟨hids, rfl⟩
    have hright := (forall₂_find?_of_mapM hids).imp hdone
    obtain ⟨xs, hxs, hlen, hargs⟩ := exists_values hright
    unfold lowerCall
    cases hres : env.resolver.resolve? name with
    | none => exact .throw
    | some resolution =>
      cases resolution with
      | intrinsic i =>
        exact (lowerIntrinsic_computes hxs i).and_steps.mono fun instr s' h =>
          .of_value h.2.1 (fun p _ => h.2.2) fun p hp y hy =>
            .intrinsic hnode hres hlen (hargs p (h.1.grows.pool.trans hp)) hy
      | fragment f =>
        refine (hinliner name f ids xs s₁ hxs).and_steps.mono ?_
        rintro instr s' ⟨hsteps, body, hroots, hcount, x, hx, hbody⟩
        refine ⟨x, hx, fun p hp => ?_⟩
        have hcount' : f.parameters.length = args.length :=
          hcount.trans (hxs.length_eq.trans hlen)
        exact .fragment hnode hres hroots hcount' hlen (hargs p (hsteps.grows.pool.trans hp))
          (hbody p hp)

/-- Lowering a list of nodes leaves every remembered node right. -/
theorem lowerNodes_right (hinliner : InlinesRight env Loads I inliner) (nodes : List Nat)
    (hsource : Provides I s.body source aux scope) (hsupplied : Supplied Loads g source s)
    (hdone : AllRight env I g scope s done) :
    Advances (env.Admits Loads) (lowerNodes env inliner g source aux nodes done) s
      fun done' s' => AllRight env I g scope s' done' := by
  induction nodes generalizing s done with
  | nil => exact .pure hdone
  | cons id nodes ih =>
    unfold lowerNodes
    cases hnode : g.node? id with
    | none => exact .throw
    | some node =>
      refine (lowerNode_right hinliner hsource hsupplied hdone hnode).bind
        fun instr s₁ h₁ hinstr => ?_
      exact ih (hsource.of_extends h₁.grows.body) (hsupplied.of_steps h₁)
        ((hdone.of_grows h₁.grows).insert hinstr)

/-- Lowering what some roots need gives right instructions for the roots. -/
theorem lowerRoots_right (hinliner : InlinesRight env Loads I inliner) (roots : List Nat)
    (hsource : Provides I s.body source aux scope) (hsupplied : Supplied Loads g source s) :
    Advances (env.Admits Loads) (lowerRoots env inliner g roots source aux) s fun ids s' =>
      Forall₂ (Right env I g scope s') roots ids := by
  have hempty : AllRight env I g scope s OrderedMap.empty := fun node id h => by cases h
  refine (lowerNodes_right hinliner _ hsource hsupplied hempty).bind fun done s₁ _ h₁ => ?_
  refine (Advances.lift _ s₁).mono ?_
  rintro ids s₂ ⟨hids, rfl⟩
  exact (forall₂_find?_of_mapM hids).imp h₁

end

theorem roots_of_calleeBody {name : String} {f : Fragment} {passed body : Nat}
    (h : calleeBody name f passed = .ok body) :
    f.roots = some (.single body) ∧ f.parameters.length = passed := by
  unfold calleeBody at h
  split at h
  · rename_i hroots
    split at h
    · rename_i hcount
      cases h
      exact ⟨hroots, hcount⟩
    · cases h
  · cases h

theorem rootNodes_of_calleeBody {name : String} {f : Fragment} {passed body : Nat}
    (h : calleeBody name f passed = .ok body) : f.rootNodes = [body] := by
  unfold Fragment.rootNodes
  rw [(roots_of_calleeBody h).1]

section

variable {env : LowerEnv} {Loads : Nat → Nat → ValueType → Prop} {I : Interpretation V}

/-- A call computes the body of the fragment, however deep calls nest. -/
theorem inlinerAt_right (budget : Nat) : InlinesRight env Loads I (inlinerAt env budget) := by
  induction budget with
  | zero => exact fun _ _ _ _ _ _ => .throw
  | succ budget ih =>
    intro name f args xs s₁ hxs
    refine (Advances.lift _ s₁).bind ?_
    rintro body s₂ - ⟨hbody, rfl⟩
    obtain ⟨hroots, hcount⟩ := roots_of_calleeBody hbody
    refine (lowerRoots_right ih [body] (.bound hxs .nil) hxs.lt_size).bind fun ids s₃ _ hids => ?_
    cases hids with
    | cons hid hnil =>
      cases hnil
      exact .pure ⟨body, hroots, hcount, hid⟩

/-- The instructions of the roots of a graph are right. -/
theorem lowerGraph_right (budget : Nat) {g : Graph} {scope : Scope V} {s : LowerState}
    {source : ParameterSource} {aux : List Nat} (roots : List Nat)
    (hsource : Provides I s.body source aux scope) (hsupplied : Supplied Loads g source s) :
    Advances (env.Admits Loads) (lowerGraph env budget g roots source aux) s fun ids s' =>
      Forall₂ (Right env I g scope s') roots ids :=
  lowerRoots_right (inlinerAt_right budget) roots hsource hsupplied

end

/-! ## Functions -/

theorem BlockBinding.source_provides (I : Interpretation V) (body : Array Instr)
    (block : Option BlockBinding) :
    Provides I body (BlockBinding.source block) [] (.ofBlock I block) := by
  cases block with
  | none => exact .none .nil
  | some b => exact .argBlock .nil

theorem supplied_source (g : Graph) (block : Option BlockBinding) (s₀ : LowerState) :
    Supplied (fun _ _ _ => True) g (BlockBinding.source block) s₀ := by
  cases block with
  | none => exact trivial
  | some b => exact fun _ _ => trivial

/-- A fragment that was added is a new routine with the instructions of its graph. -/
theorem addFragment_ok {a a' : Assembly} {s : AssemblySettings} (hlevel : s.options.optLevel = 0)
    {f : Fragment} {resources : ResourceMap} {kind : FunctionKind} {block : Option BlockBinding}
    (h : a.addFragment s f resources kind block = (.ok (), a')) :
    ∃ r state, a'.routines = a.routines ++ [r] ∧ a'.pool = state.pool ∧ r.body = state.body ∧
      r.stores = [] ∧ r.argBlock = block.map (·.index) ∧
      (lowerGraph (s.lowerEnv f resources) LowerError.nestingLimit f.graph f.rootNodes
        (BlockBinding.source block) []).run ⟨a.pool, #[], .none⟩ = (.ok r.results, state) := by
  obtain ⟨jobs, new, b, hjobs, hlowers, rfl⟩ := Assembly.addJobs_eq_ok_iff.mp h
  cases Assembly.fragmentJobs_eq_ok hjobs
  cases hlowers with
  | cons hfirst hnil =>
    cases hnil
    obtain ⟨result, t, hrun, rfl, rfl⟩ := Assembly.lowerRoutine_eq_ok_iff.mp hfirst
    simp only [Assembly.fragmentJob, run_bind_pure] at hrun
    generalize hlower : (lowerGraph _ _ _ _ _ _).run _ = run at hrun
    obtain ⟨ids | ids, state⟩ := run
    · cases hrun
    · cases hrun
      refine ⟨_, state, rfl, rfl, ?_, ?_, ?_, ?_⟩ <;>
        simp only [Assembly.finishRoutine, Routine.optimize, hlevel, if_true, Assembly.fragmentJob]

/-- Lowering preserves meaning.  A fragment that is added as a function becomes a
well-formed routine that reads the given argument block and has one result for each root.
Under every interpretation of the operators, the value of a result is the value of its
root, where parameters are read in the block, and strings and constants are where the
finished program has them. -/
theorem lowering_preserves_meaning {a a' : Assembly} {s : AssemblySettings}
    (hlevel : s.options.optLevel = 0) {f : Fragment} {resources : ResourceMap}
    {kind : FunctionKind} {block : Option BlockBinding}
    (h : a.addFragment s f resources kind block = (.ok (), a')) :
    ∃ r, a'.routines = a.routines ++ [r] ∧ r.WellFormed ∧ r.argBlock = block.map (·.index) ∧
      r.results.length = f.rootNodes.length ∧
      ∀ (V : Type) (I : Interpretation V) (k root : Nat), f.rootNodes[k]? = some root →
        ∀ x, (r.resultValues I)[k]? = some (some x) ↔
          NodeValue (s.lowerEnv f resources) I a'.pool f.graph (.ofBlock I block) root x := by
  obtain ⟨r, state, hroutines, hpool, hbody, hstores, hblock, hrun⟩ := addFragment_ok hlevel h
  have hright : ∀ (V : Type) (I : Interpretation V), _ := fun V I =>
    (lowerGraph_right (I := I) _ f.rootNodes (BlockBinding.source_provides I #[] block)
      (supplied_source f.graph block _)).ensures _ _ hrun
  have hunit := hright Unit fun _ _ _ => ()
  refine ⟨r, hroutines, ⟨?_, ?_, ?_⟩, hblock, hunit.2.length_eq.symm, ?_⟩
  · have hordered : Ordered r.body := hbody ▸ hunit.1.grows.ordered ordered_empty
    exact hordered
  · exact hbody ▸ below_of_right hunit.2
  · simp [hstores]
  · intro V I k root hroot x
    obtain ⟨xs, hxs, hlen, hnodes⟩ := exists_values (hright V I).2
    have hvalues : r.resultValues I = xs.map some := by
      rw [Routine.resultValues, hbody]
      exact hxs
    have hk : k < xs.length := hlen ▸ (List.getElem?_eq_some_iff.mp hroot).1
    have hnode := hnodes a'.pool (hpool ▸ DataPool.Grows.refl _) k root _ hroot
      (getElem?_eq_getElem hk)
    rw [hvalues, getElem?_map, getElem?_eq_getElem hk, Option.map_some]
    constructor
    · intro hx
      cases hx
      exact hnode
    · intro hx
      rw [hnode.unique hx]

/-- A fragment that gives its second argument. -/
def secondArgument : Fragment :=
  { Fragment.empty "second" .core with
    graph := ⟨#[⟨.parameter 1, .float⟩]⟩
    roots := some (.single 0)
    parameters := [⟨"a", .float, .float 0⟩, ⟨"b", .float, .float 0⟩] }

/-- A switch between a call of a fragment and one of the arguments of the call. -/
def callingSwitch : Fragment :=
  { Fragment.empty "calling" .core with
    graph := ⟨#[⟨.constant (.float 2), .float⟩, ⟨.parameter 0, .float⟩,
      ⟨.call "second" [0, 1], .float⟩]⟩
    roots := some (.multiRoot [2, 0])
    parameters := [⟨"p", .float, .float 1⟩] }

/-- Settings without optimisation, and with the fragment in the library. -/
def plainSettings : AssemblySettings :=
  ⟨{ Options.default with optLevel := 0 }, Library.empty.insert "second" secondArgument, true,
    .scalar⟩

theorem lowering_preserves_meaning_callingSwitch :
    ∃ r, ((Assembly.empty plainSettings.options).addFragment plainSettings callingSwitch
        OrderedMap.empty .switchLambda (some ⟨0, [16]⟩)).2.routines = [r] ∧
      r.WellFormed ∧ r.argBlock = some 0 ∧ r.results.length = 2 ∧
      ∀ (V : Type) (I : Interpretation V) (x : V),
        (r.resultValues I)[0]? = some (some x) ↔
          NodeValue (plainSettings.lowerEnv callingSwitch OrderedMap.empty) I
            ((Assembly.empty plainSettings.options).addFragment plainSettings callingSwitch
              OrderedMap.empty .switchLambda (some ⟨0, [16]⟩)).2.pool
            callingSwitch.graph (.ofBlock I (some ⟨0, [16]⟩)) 2 x := by
  have hadded : ((Assembly.empty plainSettings.options).addFragment plainSettings callingSwitch
      OrderedMap.empty .switchLambda (some ⟨0, [16]⟩)).1 = .ok () := by
    cbv
  obtain ⟨r, hr, hwf, hblock, hlen, hvalues⟩ :=
    lowering_preserves_meaning rfl (Prod.ext hadded rfl)
  exact ⟨r, hr, hwf, hblock, hlen, fun V I x => hvalues V I 0 2 rfl x⟩

end Shading
