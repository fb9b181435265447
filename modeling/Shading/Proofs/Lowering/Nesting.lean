import Shading.Proofs.Lowering.Descent
import Shading.Proofs.Lowering.ReadOnly
import Shading.Proofs.Lowering.Repeat
import Shading.Proofs.Resource.Coverage
import Shading.Proofs.Resource.Walk

/-!
# Nested calls of fragments

Fragments may call themselves or each other, and lowering puts the body of a
fragment in the place of each call of it.  It is kept from going on forever by the limit of nested
calls: code comes out only if no chain of calls is longer than the limit, and the limit is blamed
only if there is a longer chain.

Main definitions:

- `Resolver.Nests` is a chain of nested calls.
- `Resolver.Recurs` says that a fragment is called, over any number of calls, that calls itself over
  any number of calls.
- `Blames` says for which names a computation reports calls that nest too deep.

Main results:

- `Resolver.Recurs.exists_nests`: recursion gives chains of any length.
- `Resolver.Nests.length_le`: lowering that succeeds met no chain that is longer than its budget.
- `lowerGraph_blames`: the budget is blamed only if there is a longer chain.
- `recursive_fragments_are_contained`: what becomes of a fragment, whatever calls it makes.
-/

namespace Shading

open List

variable {name : String} {f : Fragment} {inliner : Inliner}

/-! ## Chains -/

/-- A chain of nested calls: a node that the roots reach calls the first fragment, a node that the
results of that one reach calls the next one, and so on. -/
inductive Resolver.Nests (resolver : Resolver) : Graph → List Nat → List String → Prop
  | nil {g : Graph} {roots : List Nat} : resolver.Nests g roots []
  | call {g : Graph} {roots : List Nat} {id : Nat} {name : String} {args : List Nat}
      {type : ValueType} {f : Fragment} {names : List String} (hid : g.Reachable roots id)
      (hnode : g.node? id = some ⟨.call name args, type⟩)
      (hfound : resolver.resolve? name = some (.fragment f))
      (hnests : resolver.Nests f.graph f.rootNodes names) : resolver.Nests g roots (name :: names)

/-- A fragment is called that calls itself, each over any number of calls. -/
def Resolver.Recurs (resolver : Resolver) (g : Graph) (roots : List Nat) : Prop :=
  ∃ name f, resolver.Calls g roots name ∧ resolver.resolve? name = some (.fragment f) ∧
    resolver.Calls f.graph f.rootNodes name

namespace Resolver

variable {resolver : Resolver} {g : Graph} {roots : List Nat}

/-- A chain of calls from a fragment is continued towards where the fragment is called from. -/
theorem Calls.exists_nests (h : resolver.Calls g roots name)
    (hfound : resolver.resolve? name = some (.fragment f)) {names : List String}
    (hnames : resolver.Nests f.graph f.rootNodes names) :
    ∃ longer, resolver.Nests g roots longer ∧ names.length < longer.length := by
  induction h with
  | here hid hnode => exact ⟨_ :: names, .call hid hnode hfound hnames, Nat.lt_succ_self _⟩
  | call hid hnode hcallee _ ih =>
    obtain ⟨longer, hlonger, hlength⟩ := ih hfound
    exact ⟨_ :: longer, .call hid hnode hcallee hlonger, Nat.lt_succ_of_lt hlength⟩

/-- Recursion gives chains of any length. -/
theorem Recurs.exists_nests (h : resolver.Recurs g roots) (n : Nat) :
    ∃ names, resolver.Nests g roots names ∧ n < names.length := by
  obtain ⟨name, f, hcalls, hfound, hself⟩ := h
  -- Each round of the recursion makes a chain from the fragment longer.
  have hrounds : ∃ names, resolver.Nests f.graph f.rootNodes names ∧ n ≤ names.length := by
    induction n with
    | zero => exact ⟨[], .nil, Nat.le_refl 0⟩
    | succ n ih =>
      obtain ⟨names, hnames, hlength⟩ := ih
      obtain ⟨longer, hlonger, hless⟩ := hself.exists_nests hfound hnames
      exact ⟨longer, hlonger, Nat.lt_of_le_of_lt hlength hless⟩
  obtain ⟨names, hnames, hlength⟩ := hrounds
  obtain ⟨longer, hlonger, hless⟩ := hcalls.exists_nests hfound hnames
  exact ⟨longer, hlonger, Nat.lt_of_le_of_lt hlength hless⟩

end Resolver

/-! ## Lowering that succeeds -/

section

variable {env : LowerEnv} {g : Graph} {source : ParameterSource} {aux : List Nat}

/-- Where nodes were lowered with success, each of them was. -/
theorem exists_of_lowerNodes {ids : List Nat} {done done' : Lowered} {s s' : LowerState}
    (h : (lowerNodes env inliner g source aux ids done).run s = (.ok done', s')) {id : Nat}
    (hid : id ∈ ids) {node : Node} (hnode : g.node? id = some node) :
    ∃ done₁ s₁ instr s₂,
      (lowerNode env inliner g source aux done₁ node).run s₁ = (.ok instr, s₂) := by
  induction ids generalizing done s with
  | nil => cases hid
  | cons first rest ih =>
    rw [lowerNodes] at h
    cases hfirst : g.node? first with
    | none =>
      rw [hfirst] at h
      cases h
    | some other =>
      rw [hfirst] at h
      obtain ⟨instr, s₁, hrun, hrest⟩ := exists_of_run_bind h
      rcases mem_cons.mp hid with rfl | hid
      · cases hnode.symm.trans hfirst
        exact ⟨done, s, instr, s₁, hrun⟩
      · exact ih hrest hid

/-- An inliner that succeeds has a budget, and lowered the results of the fragment with the rest
of it. -/
theorem exists_of_inlinerAt {budget : Nat} {args : List Nat} {s s' : LowerState} {id : Nat}
    (h : (inlinerAt env budget name f args).run s = (.ok id, s')) :
    ∃ rest ids s₁, budget = rest + 1 ∧
      (lowerGraph env rest f.graph f.rootNodes (.bound args) []).run s = (.ok ids, s₁) := by
  cases budget with
  | zero => cases h
  | succ rest =>
    unfold inlinerAt at h
    obtain ⟨body, s₁, hlift, hgraph⟩ := exists_of_run_bind h
    obtain ⟨hbody, rfl⟩ := Ensures.lift _ s body s₁ hlift
    obtain ⟨ids, s₂, hids, -⟩ := exists_of_run_bind hgraph
    rw [rootNodes_of_calleeBody hbody]
    exact ⟨rest, ids, s₂, rfl, hids⟩

/-- Lowering that succeeds met no chain that is longer than its budget.  The induction is on the
chain. -/
theorem Resolver.Nests.length_le {roots : List Nat} {names : List String}
    (h : env.resolver.Nests g roots names) {budget : Nat} {s s' : LowerState} {results : List Nat}
    (hrun : (lowerGraph env budget g roots source aux).run s = (.ok results, s')) :
    names.length ≤ budget := by
  induction h generalizing budget source aux s s' results with
  | nil => exact Nat.zero_le _
  | @call g roots id name args type f names hid hnode hfound _ ih =>
    obtain ⟨done, s₁, hnodes, -⟩ := exists_of_run_bind hrun
    have hmem : id ∈ g.postOrder roots :=
      Graph.mem_postOrder_iff.mpr ⟨hid, Graph.node?_isSome_iff.mp (by rw [hnode]; rfl)⟩
    obtain ⟨done₁, s₂, instr, s₃, hcall⟩ := exists_of_lowerNodes hnodes hmem hnode
    rw [lowerNode_of_callee? (Resolver.callee?_eq_some_iff.mpr ⟨rfl, hfound⟩)] at hcall
    obtain ⟨ids, s₄, -, hinlined⟩ := exists_of_run_bind hcall
    obtain ⟨rest, ids, s₅, rfl, hbody⟩ := exists_of_inlinerAt hinlined
    exact Nat.succ_le_succ (ih hbody)

end

/-! ## Blame -/

theorem AddsNoData.succeeds {α : Type} {m : LowerM α} (h : AddsNoData m) : Succeeds m := by
  intro s
  obtain ⟨a, t, hrun, -⟩ := h s
  exact ⟨a, t, hrun⟩

/-- Calls that nest too deep are reported only for names of a kind. -/
def Blames {α : Type} (P : String → Prop) (m : LowerM α) : Prop :=
  ∀ s name s', m.run s = (.error (.nestedTooDeep name), s') → P name

/-- A list of checks fails like one of them. -/
theorem exists_of_mapM_error {α β ε : Type} {f : α → Except ε β} {l : List α} {e : ε}
    (h : l.mapM f = .error e) : ∃ a ∈ l, f a = .error e := by
  induction l with
  | nil => cases h
  | cons a l ih =>
    rw [mapM_cons] at h
    cases ha : f a with
    | error e' =>
      rw [ha] at h
      cases h
      exact ⟨a, mem_cons_self, ha⟩
    | ok b =>
      rw [ha] at h
      change (l.mapM f >>= fun bs => pure (b :: bs)) = _ at h
      cases hl : l.mapM f with
      | error e' =>
        rw [hl] at h
        cases h
        obtain ⟨a', hmem, ha'⟩ := ih hl
        exact ⟨a', mem_cons_of_mem _ hmem, ha'⟩
      | ok bs =>
        rw [hl] at h
        cases h

namespace Blames

variable {α β : Type} {P : String → Prop}

theorem of_succeeds {m : LowerM α} (h : Succeeds m) : Blames P m := by
  intro s name s' hrun
  obtain ⟨a, s₁, hok⟩ := h s
  rw [hok] at hrun
  cases hrun

theorem pure (a : α) : Blames P (Pure.pure a) :=
  of_succeeds (.pure a)

theorem emit (t : ValueType) (op : Op) : Blames P (Shading.emit t op) :=
  of_succeeds (.emit t op)

theorem throw {e : LowerError} (h : ∀ name, e = .nestedTooDeep name → P name) :
    Blames P (MonadExcept.throw e : LowerM α) := by
  intro s name s' hrun
  cases hrun
  exact h name rfl

theorem bind {m : LowerM α} {f : α → LowerM β} (hm : Blames P m) (hf : ∀ a, Blames P (f a)) :
    Blames P (m >>= f) := by
  intro s name s' hrun
  rcases hfirst : m.run s with ⟨e | a, s₁⟩
  · rw [run_bind_of_error hfirst] at hrun
    cases hrun
    exact hm s name s' hfirst
  · rw [run_bind_of_ok hfirst] at hrun
    exact hf a s₁ name s' hrun

/-- What follows a check may use that it was passed. -/
theorem check {x : Except LowerError α} {f : α → LowerM β}
    (hx : ∀ name, x ≠ .error (.nestedTooDeep name)) (hf : ∀ a, x = .ok a → Blames P (f a)) :
    Blames P (liftM x >>= f) := by
  cases x with
  | error e => exact throw fun name he => absurd (congrArg Except.error he) (hx name)
  | ok a => exact hf a rfl

theorem lift {x : Except LowerError α} (h : ∀ name, x ≠ .error (.nestedTooDeep name)) :
    Blames P (liftM x : LowerM α) := by
  cases x with
  | error e => exact throw fun name he => absurd (congrArg Except.error he) (h name)
  | ok a => exact pure a

end Blames

/-! ## Nodes without calls -/

section

variable {P : String → Prop} {env : LowerEnv}

theorem lowerCompound_blames {v : Value} {t : ValueType} {parts : LowerM (List Nat)}
    (hparts : Blames P parts) : Blames P (lowerCompound env v t parts) := by
  refine (Blames.of_succeeds fun _ => ⟨_, _, rfl⟩).bind fun place => ?_
  cases place with
  | some offset => exact .of_succeeds fun _ => ⟨_, _, rfl⟩
  | none => exact hparts.bind fun ids => .emit _ _

theorem partType_ne (t : ValueType) (index : Nat) (name : String) :
    partType t index ≠ .error (.nestedTooDeep name) := by
  unfold partType
  split <;> simp

mutual

theorem lowerConstant_blames (v : Value) (t : ValueType) : Blames P (lowerConstant env v t) := by
  cases v with
  | vector parts | matrix parts | array parts | struct parts =>
    simp only [lowerConstant]
    exact lowerCompound_blames (lowerParts_blames parts t 0)
  | color r g b =>
    simp only [lowerConstant]
    refine lowerCompound_blames (.check (partType_ne t 2) fun _ _ => ?_)
    exact .of_succeeds fun _ => ⟨_, _, rfl⟩
  | string text =>
    simp only [lowerConstant]
    exact .of_succeeds (lowerString_succeeds env text)
  | _ =>
    simp only [lowerConstant]
    exact .emit _ _

theorem lowerParts_blames (parts : List Value) (t : ValueType) (index : Nat) :
    Blames P (lowerParts env parts t index) := by
  cases parts with
  | nil =>
    simp only [lowerParts]
    exact .pure _
  | cons v rest =>
    simp only [lowerParts]
    refine .check (partType_ne t index) fun part _ => ?_
    refine (lowerConstant_blames v part).bind fun id => ?_
    exact (lowerParts_blames rest t (index + 1)).bind fun ids => .pure _

end

theorem expectArgs_ne (i : Intrinsic) (args : List Nat) (count : Nat) (name : String) :
    expectArgs i args count ≠ .error (.nestedTooDeep name) := by
  unfold expectArgs
  split <;> exact nofun

theorem checkContext_ne (context : ExecutionContext) (q : StateQuery) (name : String) :
    checkContext context q ≠ .error (.nestedTooDeep name) := by
  unfold checkContext
  split
  · split <;> exact nofun
  · exact nofun
  · split <;> exact nofun

theorem lowerTextureCoordinate_blames (c : CallSite) : Blames P (lowerTextureCoordinate env c) := by
  unfold lowerTextureCoordinate
  refine .check (expectArgs_ne _ _ _) fun _ _ => ?_
  split
  · rename_i n t hnode
    by_cases hneg : n < 0
    · simp only [hneg, if_true]
      exact .throw (by simp)
    · simp only [hneg, if_false]
      split <;> exact .of_succeeds fun _ => ⟨_, _, rfl⟩
  · exact .throw (by simp)

theorem lowerState_blames (c : CallSite) (q : StateQuery) : Blames P (lowerState env c q) := by
  refine .check (checkContext_ne _ _) fun _ _ => ?_
  cases q with
  | normal | position | direction | animationTime => exact .of_succeeds fun _ => ⟨_, _, rfl⟩
  | objectPosition | objectNormal =>
    exact .of_succeeds ((lowerField_addsNoData _ _ _).bind fun v =>
      objectSpace_addsNoData v _ _ _ _).succeeds
  | objectId =>
    change Blames P (lowerObjectId env c.type)
    unfold lowerObjectId
    split <;> exact .of_succeeds fun _ => ⟨_, _, rfl⟩
  | textureCoordinate => exact lowerTextureCoordinate_blames c

/-- Intrinsics do not nest. -/
theorem lowerIntrinsic_blames (c : CallSite) (i : Intrinsic) :
    Blames P (lowerIntrinsic env c i) := by
  cases i with
  | unary op =>
    change Blames P (lowerUnary c op)
    unfold lowerUnary
    split
    · exact .emit _ _
    · exact .throw (by simp)
  | binary op =>
    refine .check (expectArgs_ne _ _ _) fun _ _ => ?_
    split
    · exact .emit _ _
    · split
      · exact .emit _ _
      · exact .throw (by simp)
  | ternary op =>
    change Blames P (lowerTernary c op)
    unfold lowerTernary
    split
    · exact .emit _ _
    · exact .throw (by simp)
  | construct =>
    change Blames P (lowerConstruct c)
    unfold lowerConstruct
    dsimp only
    split
    · exact .throw (by simp)
    · exact .emit _ _
  | member index =>
    change Blames P (lowerMember c index)
    unfold lowerMember
    split
    · exact .emit _ _
    · exact .throw (by simp)
  | state q => exact lowerState_blames c q
  | lookup what =>
    refine .check (expectArgs_ne _ _ _) fun _ _ => ?_
    split
    · exact .emit _ _
    · exact .throw (by simp)
  | resource q =>
    refine .check (expectArgs_ne _ _ _) fun _ _ => ?_
    split <;> exact .emit _ _
  | bsdf node => exact .throw (by simp)

theorem lowerParameter_blames (source : ParameterSource) (t : ValueType) (index : Nat) :
    Blames P (lowerParameter source t index) := by
  unfold lowerParameter
  cases source with
  | none => exact .throw (by simp)
  | argBlock block offsets =>
    dsimp only
    split
    · exact .emit _ _
    · exact .throw (by simp)
  | bound args =>
    dsimp only
    split
    · exact .pure _
    · exact .throw (by simp)

theorem loweredArgs_ne (done : Lowered) (args : List Nat) (name : String) :
    loweredArgs done args ≠ .error (.nestedTooDeep name) := by
  intro h
  obtain ⟨a, -, ha⟩ := exists_of_mapM_error h
  split at ha <;> cases ha

theorem loweredRoots_ne (done : Lowered) (roots : List Nat) (name : String) :
    loweredRoots done roots ≠ .error (.nestedTooDeep name) := by
  intro h
  obtain ⟨r, -, hr⟩ := exists_of_mapM_error h
  split at hr <;> cases hr

variable {g : Graph} {source : ParameterSource} {aux : List Nat}

/-- A node that calls no fragment does not nest. -/
theorem lowerNode_blames {node : Node} (h : env.resolver.callee? node = none) (inliner : Inliner)
    (done : Lowered) : Blames P (lowerNode env inliner g source aux done node) := by
  rw [lowerNode_of_callee?_none h inliner noInliner]
  obtain ⟨op, t⟩ := node
  unfold lowerNode
  cases op with
  | constant v => exact lowerConstant_blames v t
  | parameter index => exact lowerParameter_blames source t index
  | lambdaResult index =>
    dsimp only
    split
    · exact .pure _
    · exact .throw (by simp)
  | call name args =>
    refine .check (loweredArgs_ne done args) fun ids _ => ?_
    unfold lowerCall
    split
    · exact .throw (by simp)
    · exact .throw (by simp)
    · exact lowerIntrinsic_blames _ _

/-! ## Graphs -/

theorem lowerNodes_blames {ids : List Nat} (h : ∀ id ∈ ids, ∀ node, g.node? id = some node → ∀ done,
      Blames P (lowerNode env inliner g source aux done node)) (done : Lowered) :
    Blames P (lowerNodes env inliner g source aux ids done) := by
  induction ids generalizing done with
  | nil => exact .pure done
  | cons id rest ih =>
    rw [lowerNodes]
    cases hnode : g.node? id with
    | none => exact .throw (by simp)
    | some node =>
      refine (h id mem_cons_self node hnode done).bind fun instr => ?_
      exact ih (fun other hother => h other (mem_cons_of_mem _ hother)) _

theorem calleeBody_ne (name : String) (f : Fragment) (passed : Nat) (other : String) :
    calleeBody name f passed ≠ .error (.nestedTooDeep other) := by
  unfold calleeBody
  split
  · split <;> exact nofun
  · exact nofun

theorem onlyResult_ne (root : Nat) (ids : List Nat) (name : String) :
    onlyResult root ids ≠ .error (.nestedTooDeep name) := by
  unfold onlyResult
  split <;> exact nofun

theorem lowerRoots_blames {roots : List Nat} (h : ∀ id name args type f, g.Reachable roots id →
      g.node? id = some ⟨.call name args, type⟩ →
      env.resolver.resolve? name = some (.fragment f) → ∀ ids, Blames P (inliner name f ids)) :
    Blames P (lowerRoots env inliner g roots source aux) := by
  refine (lowerNodes_blames ?_ _).bind fun done => .lift (loweredRoots_ne done roots)
  intro id hid node hnode done
  cases hcallee : env.resolver.callee? node with
  | none => exact lowerNode_blames hcallee inliner done
  | some callee =>
    obtain ⟨name, args, f⟩ := callee
    obtain ⟨hop, hfound⟩ := Resolver.callee?_eq_some_iff.mp hcallee
    rw [lowerNode_of_callee? hcallee]
    refine .check (loweredArgs_ne done args) fun ids _ => ?_
    obtain ⟨op, type⟩ := node
    subst hop
    exact h id name args type f (Graph.mem_postOrder_iff.mp hid).1 hnode hfound ids

/-- The budget is blamed only if there is a longer chain, which ends with the name that is
reported.  The induction is on the budget. -/
theorem lowerGraph_blames (env : LowerEnv) (budget : Nat) (g : Graph) (roots : List Nat)
    (source : ParameterSource) (aux : List Nat) :
    Blames (fun name => ∃ names, names.length = budget ∧
        env.resolver.Nests g roots (names ++ [name]))
      (lowerGraph env budget g roots source aux) := by
  induction budget generalizing g roots source aux with
  | zero =>
    refine lowerRoots_blames fun id name args type f hid hnode hfound ids => .throw ?_
    rintro other ⟨⟩
    exact ⟨[], rfl, .call hid hnode hfound .nil⟩
  | succ budget ih =>
    refine lowerRoots_blames fun id name args type f hid hnode hfound ids => ?_
    unfold inlinerAt
    refine .check (calleeBody_ne _ _ _) fun body hbody => ?_
    refine Blames.bind ?_ fun results => .lift (onlyResult_ne body results)
    intro s other s' hrun
    obtain ⟨names, hlength, hnests⟩ := ih f.graph [body] (.bound ids) [] s other s' hrun
    rw [← rootNodes_of_calleeBody hbody] at hnests
    exact ⟨name :: names, congrArg Nat.succ hlength, .call hid hnode hfound hnests⟩

end

/-! ## Fragments -/

/-- A fragment is added if it has the form that is needed and its graph can be lowered. -/
theorem Assembly.addFragment_fst (a : Assembly) (s : AssemblySettings) (f : Fragment)
    (resources : ResourceMap) (kind : FunctionKind) (block : Option BlockBinding) :
    (a.addFragment s f resources kind block).1 =
      match checkRoots f kind with
      | .error e => .error ⟨f.name, e⟩
      | .ok () =>
        match ((lowerGraph (s.lowerEnv f resources) LowerError.nestingLimit f.graph f.rootNodes
          (BlockBinding.source block) []).run ⟨a.pool, #[], .none⟩).1 with
        | .error e => .error ⟨f.name, e⟩
        | .ok _ => .ok () := by
  unfold addFragment fragmentJobs
  cases checkRoots f kind with
  | error e => rfl
  | ok u =>
    simp only [addJobs, lowerJobs, lowerRoutine, fragmentJob, run_bind_pure]
    rcases (lowerGraph _ _ _ _ _ _).run _ with ⟨e | results, state⟩ <;> rfl

/-- What becomes of a fragment that is added, whatever calls it and the fragments of the library
make. -/
structure Assembly.Contains (a : Assembly) (s : AssemblySettings) (f : Fragment)
    (resources : ResourceMap) (kind : FunctionKind) (block : Option BlockBinding) : Prop where
  /-- Listing its resources ends, and goes into no fragment twice. -/
  listed : ∀ lib : Library, ∃ entered, lib.explore (f.reachable.map (·.2)) []
      = some (lib.nodeRefs (f.reachable.map (·.2)) [], entered) ∧ entered.Nodup ∧
    ∀ name ∈ entered, (lib.fragments.find? name).isSome
  /-- Lowering ends, with a counter of nested calls that is never above the limit. -/
  lowered : ∀ start : LowerState,
    let run := (lowerGraph (s.lowerEnv f resources) LowerError.nestingLimit f.graph f.rootNodes
      (BlockBinding.source block) []).run start
    ∃ deepest ≤ LowerError.nestingLimit,
      (s.lowerEnv f resources).descendGraph f.graph f.rootNodes (BlockBinding.source block) []
        ⟨start, 0, 0⟩ = some (run.1, ⟨run.2, 0, deepest⟩)
  /-- Every call ends, and the counter is restored after it. -/
  restored : ∀ (name : String) (callee : Fragment) (args : List Nat) (d : Descent),
    d.depth ≤ LowerError.nestingLimit → ∃ result state deepest,
      (s.lowerEnv f resources).descendCall name callee args d
        = some (result, ⟨state, d.depth, deepest⟩) ∧
      deepest ≤ max d.deepest LowerError.nestingLimit
  /-- A chain that is longer than the limit is refused. -/
  refused : ∀ names, s.resolver.Nests f.graph f.rootNodes names →
    LowerError.nestingLimit < names.length →
    ∃ failure, (a.addFragment s f resources kind block).1 = .error failure
  /-- So is recursion. -/
  recursion : s.resolver.Recurs f.graph f.rootNodes →
    ∃ failure, (a.addFragment s f resources kind block).1 = .error failure
  /-- The limit is blamed only for a chain that is longer. -/
  blamed : ∀ routine name,
    (a.addFragment s f resources kind block).1 = .error ⟨routine, .nestedTooDeep name⟩ →
    ∃ names, names.length = LowerError.nestingLimit ∧
      s.resolver.Nests f.graph f.rootNodes (names ++ [name])

section

variable {a : Assembly} {s : AssemblySettings} {f : Fragment} {resources : ResourceMap}
  {kind : FunctionKind} {block : Option BlockBinding}

/-- A fragment with a chain that is longer than the limit is not added. -/
theorem Assembly.addFragment_fails {names : List String}
    (hnests : s.resolver.Nests f.graph f.rootNodes names)
    (hlong : LowerError.nestingLimit < names.length) :
    ∃ failure, (a.addFragment s f resources kind block).1 = .error failure := by
  rw [addFragment_fst]
  cases checkRoots f kind with
  | error e => exact ⟨_, rfl⟩
  | ok u =>
    rcases hrun : (lowerGraph (s.lowerEnv f resources) LowerError.nestingLimit f.graph
      f.rootNodes (BlockBinding.source block) []).run ⟨a.pool, #[], .none⟩ with ⟨e | results, t⟩
    · exact ⟨_, rfl⟩
    · have hle := @Resolver.Nests.length_le (s.lowerEnv f resources) _ _ _ _ _ hnests _ _ _ _ hrun
      omega

/-- A fragment that is not added because calls nest too deep has a chain that is longer than the
limit. -/
theorem Assembly.nests_of_addFragment {routine : String}
    (h : (a.addFragment s f resources kind block).1 = .error ⟨routine, .nestedTooDeep name⟩) :
    ∃ names, names.length = LowerError.nestingLimit ∧
      s.resolver.Nests f.graph f.rootNodes (names ++ [name]) := by
  rw [addFragment_fst] at h
  cases hroots : checkRoots f kind with
  | error e =>
    rw [hroots] at h
    cases h
    unfold checkRoots at hroots
    split at hroots <;> cases hroots
  | ok u =>
    rw [hroots] at h
    rcases hrun : (lowerGraph (s.lowerEnv f resources) LowerError.nestingLimit f.graph
      f.rootNodes (BlockBinding.source block) []).run ⟨a.pool, #[], .none⟩ with ⟨e | results, t⟩
    · rw [hrun] at h
      cases h
      exact lowerGraph_blames (s.lowerEnv f resources) _ _ _ _ _ _ _ _ hrun
    · rw [hrun] at h
      cases h

end

/-- Recursion does no harm.  Whatever fragments the library has, listing the resources of a
fragment and lowering it end; a chain of calls that is longer than the limit, and with it every
recursion, is refused; and the limit is blamed for nothing else. -/
theorem recursive_fragments_are_contained (a : Assembly) (s : AssemblySettings) (f : Fragment)
    (resources : ResourceMap) (kind : FunctionKind) (block : Option BlockBinding) :
    a.Contains s f resources kind block where
  listed lib := lib.explore_eq _
  lowered start := by
    obtain ⟨deepest, hrun, -, hmax⟩ := descendGraph_follows (s.lowerEnv f resources) f.graph
      f.rootNodes (BlockBinding.source block) [] (d := ⟨start, 0, 0⟩) (Nat.zero_add _)
    exact ⟨deepest, hmax, hrun⟩
  restored name callee args d hdepth := by
    obtain ⟨deepest, hrun, -, hmax⟩ := descendCall_follows (s.lowerEnv f resources)
      (Nat.add_sub_cancel' hdepth) name callee args d rfl
    exact ⟨_, _, deepest, hrun, hmax⟩
  refused names := Assembly.addFragment_fails
  recursion hrecurs := by
    obtain ⟨names, hnests, hlong⟩ := hrecurs.exists_nests LowerError.nestingLimit
    exact Assembly.addFragment_fails hnests hlong
  blamed routine name := Assembly.nests_of_addFragment

/-- A function that is its own result. -/
def mirror : Fragment where
  name := "mirror"
  context := .core
  graph := ⟨#[⟨.call "mirror" [], .float⟩]⟩
  roots := some (.single 0)
  parameters := []
  copied := OrderedMap.empty
  uniform := none
  resources := OrderedMap.empty

/-- Settings with a library that has the function. -/
def mirrorSettings : AssemblySettings :=
  ⟨.default, Library.empty.insert "mirror" mirror, false, .scalar⟩

/-- The function is refused, for a chain of calls of itself. -/
theorem recursive_fragments_are_contained_mirror :
    mirrorSettings.resolver.Recurs mirror.graph mirror.rootNodes ∧
      ((Assembly.empty .default).addFragment mirrorSettings mirror OrderedMap.empty .lambda none).1
        = .error ⟨"mirror", .nestedTooDeep "mirror"⟩ ∧
      (∃ failure, ((Assembly.empty .default).addFragment mirrorSettings mirror OrderedMap.empty
        .lambda none).1 = .error failure) ∧
      ∃ names, names.length = 64 ∧
        mirrorSettings.resolver.Nests mirror.graph mirror.rootNodes (names ++ ["mirror"]) := by
  have hcalls : mirrorSettings.resolver.Calls mirror.graph mirror.rootNodes "mirror" :=
    .here (.root mem_cons_self) rfl
  have hrecurs : mirrorSettings.resolver.Recurs mirror.graph mirror.rootNodes :=
    ⟨"mirror", mirror, hcalls, rfl, hcalls⟩
  have hblames : ((Assembly.empty .default).addFragment mirrorSettings mirror OrderedMap.empty
      .lambda none).1 = .error ⟨"mirror", .nestedTooDeep "mirror"⟩ := by
    set_option maxRecDepth 8000 in cbv
  have hcontains := recursive_fragments_are_contained (.empty .default) mirrorSettings mirror
    OrderedMap.empty .lambda none
  exact ⟨hrecurs, hblames, hcontains.recursion hrecurs, hcontains.blamed _ _ hblames⟩

end Shading
