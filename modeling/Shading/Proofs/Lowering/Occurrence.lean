import Shading.Proofs.Lowering.Literals
import Shading.Proofs.Lowering.Locality
import Shading.Proofs.Lowering.TextureResults

/-!
# Where literals end up

A literal that lowering meets, in a graph or in a fragment that is called from there, is written
into a routine.  It stays there while more is lowered, and so do the integers of its strings and
resources.

Main definitions:

- `LowerState.Holds` says that a literal stands in a routine that is being lowered, and
  `Routine.Holds` that it stood in a finished one before it was optimised.
- `Compilable.Lowers` says which literals of an item are lowered.

Main results:

- `lowerGraph_holds` and `lowerBsdf_holds`: the literals of graphs and distributions.
- `Compilation.lowerItem_holds`: every literal of an item stands in one of its routines.
-/

namespace Shading

open List

variable {v : Value} {P : LowerState → Instr → Prop} {g : Graph} {id root : Nat} {d : Distribution}
  {resources : ResourceMap} {block : Option BlockBinding}

/-! ## Literals in a routine -/

namespace Advances

variable {α : Type} {P : LowerState → Instr → Prop} {m : LowerM α} {s : LowerState}
  {Q R : α → LowerState → Prop}

/-- What else is known about the end of a run. -/
theorem and (h : Advances P m s Q) (hR : Ensures m s R) :
    Advances P m s fun a s' => Q a s' ∧ R a s' :=
  ⟨h.steps, fun a s' hrun => ⟨h.ends a s' hrun, hR a s' hrun⟩⟩

end Advances

/-- The integers that stand for references stay when strings are added. -/
theorem LowerEnv.Handle.of_grows {env : LowerEnv} {table longer : List String}
    (h : table <+: longer) {n : Nat} (hn : env.Handle table v n) : env.Handle longer v n :=
  fun hasked => handle?_of_grows h (hn hasked)

namespace LowerState

/-- A literal stands in a routine that is being lowered. -/
def Holds (s : LowerState) (env : LowerEnv) (v : Value) : Prop :=
  ∃ t id, Encoded env.rules (env.Handle s.pool.strings) s.body s.pool.bytes v t id

/-- Some literals stand in a routine that is being lowered. -/
def HoldsAll (s : LowerState) (env : LowerEnv) (literals : Value → Prop) : Prop :=
  ∀ v, literals v → s.Holds env v

variable {s s' : LowerState} {env : LowerEnv} {literals : Value → Prop}

theorem HoldsAll.of_grows (h : s.HoldsAll env literals) (hbody : Extends s.body s'.body)
    (hpool : s.pool.Reaches s'.pool) : s'.HoldsAll env literals := by
  intro v hv
  obtain ⟨t, id, hencoded⟩ := h v hv
  exact ⟨t, id, (hencoded.of_longer hbody hpool.bytes).mono (.of_grows hpool.grows.strings)⟩

theorem HoldsAll.of_steps (h : s.HoldsAll env literals) (hs : s.Steps P s') :
    s'.HoldsAll env literals :=
  h.of_grows hs.grows.body hs.reaches

end LowerState

/-! ## Literals of a graph -/

/-- A literal is met at a node if it is the node, or is met from the results of the fragment that
the node calls. -/
def Resolver.MeetsAt (names : Resolver) (node : Node) (v : Value) : Prop :=
  match node.op with
  | .constant w => v = w
  | .call name _ => ∃ f, names.resolve? name = some (.fragment f) ∧
      names.Meets f.graph f.rootNodes v
  | _ => False

theorem Resolver.Meets.exists_node {names : Resolver} {roots : List Nat}
    (h : names.Meets g roots v) :
    ∃ id node, g.Reachable roots id ∧ g.node? id = some node ∧ names.MeetsAt node v := by
  cases h with
  | constant hid hnode => exact ⟨_, _, hid, hnode, rfl⟩
  | call hid hnode hfound hmeets => exact ⟨_, _, hid, hnode, _, hfound, hmeets⟩

theorem Resolver.MeetsAt.meets {names : Resolver} {roots : List Nat} {node : Node}
    (h : names.MeetsAt node v) (hid : g.Reachable roots id) (hnode : g.node? id = some node) :
    names.Meets g roots v := by
  obtain ⟨op, t⟩ := node
  cases op with
  | constant w =>
    cases h
    exact .constant hid hnode
  | call name args =>
    obtain ⟨f, hfound, hmeets⟩ := h
    exact .call hid hnode hfound hmeets
  | _ => all_goals exact h.elim

/-- An inliner that writes the literals of the fragments that are called. -/
def InlinesHolding (env : LowerEnv) (inliner : Inliner) : Prop :=
  ∀ (name : String) (f : Fragment) (args : List Nat) (s : LowerState),
    (∀ a ∈ args, a < s.body.size) → s.pool.Sound →
      Ensures (inliner name f args) s fun _ s' =>
        s'.HoldsAll env (env.resolver.Meets f.graph f.rootNodes)

section

variable {V : Type} {I : Interpretation V} {env : LowerEnv} {s : LowerState} {inliner : Inliner}
  {g : Graph} {scope : Scope V} {source : ParameterSource} {aux : List Nat}

theorem lowerNode_holds (hinliner : InlinesHolding env inliner) (hs : s.pool.Sound)
    {done : Lowered} (hdone : AllRight env I g scope s done) (node : Node) :
    Ensures (lowerNode env inliner g source aux done node) s fun _ s' =>
      s'.HoldsAll env (env.resolver.MeetsAt node) := by
  obtain ⟨op, t⟩ := node
  unfold lowerNode
  cases op with
  | constant w =>
    refine (lowerConstant_encoded w t hs).mono ?_
    rintro id s' hencoded v rfl
    exact ⟨t, id, hencoded (prefix_refl _)⟩
  | parameter index | lambdaResult index => exact fun _ _ _ v hv => hv.elim
  | call name args =>
    refine (Ensures.lift _ s).bind ?_
    rintro ids s₁ ⟨hids, rfl⟩
    have hbelow := below_of_right ((forall₂_find?_of_mapM hids).imp hdone)
    unfold lowerCall
    split
    · exact .throw
    · rename_i f hcalled
      refine (hinliner name f ids s₁ hbelow hs).mono ?_
      rintro id s₂ hholds v ⟨f', hfound, hmeets⟩
      cases hcalled.symm.trans hfound
      exact hholds v hmeets
    · rename_i i hcalled
      rintro id s₂ _ v ⟨f', hfound, _⟩
      cases hcalled.symm.trans hfound

theorem lowerNodes_holds (hright : InlinesRight env (fun _ _ _ => True) I inliner)
    (hinliner : InlinesHolding env inliner) (nodes : List Nat)
    (hsource : Provides I s.body source aux scope)
    (hsupplied : Supplied (fun _ _ _ => True) g source s)
    (hs : s.pool.Sound) {done : Lowered} (hdone : AllRight env I g scope s done) :
    Ensures (lowerNodes env inliner g source aux nodes done) s fun _ s' =>
      ∀ id ∈ nodes, ∀ node, g.node? id = some node →
        s'.HoldsAll env (env.resolver.MeetsAt node) := by
  induction nodes generalizing s done with
  | nil => exact .pure (forall_mem_nil _)
  | cons id nodes ih =>
    unfold lowerNodes
    cases hnode : g.node? id with
    | none => exact .throw
    | some node =>
      refine ((lowerNode_right hright hsource hsupplied hdone hnode).and
        (lowerNode_holds hinliner hs hdone node)).ensures.bind ?_
      rintro instr s₁ ⟨h₁, hinstr, hfirst⟩
      have hsource₁ := hsource.of_extends h₁.grows.body
      have hsupplied₁ := hsupplied.of_steps h₁
      have hdone₁ := (hdone.of_grows h₁.grows).insert hinstr
      refine ((lowerNodes_right hright nodes hsource₁ hsupplied₁ hdone₁).and
        (ih hsource₁ hsupplied₁ (h₁.reaches.sound hs) hdone₁)).ensures.mono ?_
      rintro done' s₂ ⟨h₂, -, hrest⟩ id' hid' node' hnode'
      rcases mem_cons.mp hid' with rfl | hid'
      · cases hnode.symm.trans hnode'
        exact hfirst.of_steps h₂
      · exact hrest id' hid' node' hnode'

theorem lowerRoots_holds (hright : InlinesRight env (fun _ _ _ => True) I inliner)
    (hinliner : InlinesHolding env inliner) (roots : List Nat)
    (hsource : Provides I s.body source aux scope)
    (hsupplied : Supplied (fun _ _ _ => True) g source s) (hs : s.pool.Sound) :
    Ensures (lowerRoots env inliner g roots source aux) s fun _ s' =>
      s'.HoldsAll env (env.resolver.Meets g roots) := by
  have hempty : AllRight env I g scope s OrderedMap.empty := fun node id h => by cases h
  refine (lowerNodes_holds hright hinliner _ hsource hsupplied hs hempty).bind
    fun done s₁ hnodes => ?_
  refine (Ensures.lift _ s₁).mono ?_
  rintro ids s₂ ⟨_, rfl⟩ v hv
  obtain ⟨id, node, hid, hnode, hmeets⟩ := hv.exists_node
  refine hnodes id (Graph.mem_postOrder_iff.mpr ⟨hid, ?_⟩) node hnode v hmeets
  exact Graph.node?_isSome_iff.mp (by rw [hnode]; rfl)

end

section

variable {env : LowerEnv} {s : LowerState} {g : Graph} {source : ParameterSource}
  {aux : List Nat}

/-- The code of a call holds the literals of the fragment, however deep calls nest. -/
theorem inlinerAt_holds (budget : Nat) : InlinesHolding env (inlinerAt env budget) := by
  induction budget with
  | zero => exact fun _ _ _ _ _ _ => .throw
  | succ budget ih =>
    intro name f args s₁ hargs hs₁
    refine (Ensures.lift _ s₁).bind ?_
    rintro body s₂ ⟨hbody, rfl⟩
    rw [rootNodes_of_calleeBody hbody]
    obtain ⟨xs, hxs⟩ := exists_haveValues (fun _ _ _ => ()) hargs
    refine (lowerRoots_holds (inlinerAt_right budget) ih [body] (.bound hxs .nil) hargs
      hs₁).bind fun ids s₃ hholds => ?_
    refine (Ensures.lift _ s₃).mono ?_
    rintro id s₄ ⟨-, rfl⟩
    exact hholds

/-- The literals of a graph stand in the routine, and so do those of the fragments that are
called. -/
theorem lowerGraph_holds (budget : Nat) (roots : List Nat)
    (hsource : Supplied (fun _ _ _ => True) g source s) (haux : ∀ a ∈ aux, a < s.body.size)
    (hs : s.pool.Sound) :
    Ensures (lowerGraph env budget g roots source aux) s fun _ s' =>
      s'.HoldsAll env (env.resolver.Meets g roots) := by
  obtain ⟨scope, hprovides⟩ := hsource.exists_provides (fun _ _ _ => ()) haux
  exact lowerRoots_holds (inlinerAt_right budget) (inlinerAt_holds budget) roots hprovides
    hsource hs

theorem lowerRoot_holds (root : Nat) (hsource : Supplied (fun _ _ _ => True) g source s)
    (haux : ∀ a ∈ aux, a < s.body.size) (hs : s.pool.Sound) :
    Ensures (lowerRoot env g root source aux) s fun _ s' =>
      s'.HoldsAll env (env.resolver.Meets g [root]) := by
  refine (lowerGraph_holds _ [root] hsource haux hs).bind fun ids s₁ hholds => ?_
  refine (Ensures.lift _ s₁).mono ?_
  rintro id s₂ ⟨-, rfl⟩
  exact hholds

end

/-! ## Literals of distributions -/

/-- What is reached from an id is the id, or is reached from what its node reads. -/
theorem Graph.Reachable.of_node {node : Node} (h : g.Reachable [root] id)
    (hnode : g.node? root = some node) : id = root ∨ ∃ a ∈ node.args, g.Reachable [a] id := by
  induction h with
  | root hmem => exact Or.inl (mem_singleton.mp hmem)
  | arg hid hreads ha ih =>
    refine Or.inr ?_
    rcases ih with rfl | ⟨b, hb, hreach⟩
    · cases hnode.symm.trans hreads
      exact ⟨_, ha, .root mem_cons_self⟩
    · exact ⟨b, hb, hreach.arg hreads ha⟩

section

variable {env : LowerEnv} {s : LowerState} {g : Graph} {source : ParameterSource}
  {aux : List Nat}

/-- A literal that is met from a distribution node is met from one of its arguments. -/
theorem Resolver.Meets.of_bsdfAt {node : BsdfNode} {name : String} {args : List Nat}
    (hv : env.resolver.Meets g [id] v) (h : bsdfAt env g id = .ok (node, name, args)) :
    ∃ a ∈ args, env.resolver.Meets g [a] v := by
  obtain ⟨other, otherNode, hreach, hother, hmeets⟩ := hv.exists_node
  obtain ⟨hresolve, t, hnode⟩ := bsdfAt_eq_ok h
  rcases hreach.of_node hnode with rfl | ⟨a, ha, hreach⟩
  · cases hnode.symm.trans hother
    obtain ⟨f, hfound, -⟩ := hmeets
    cases hresolve.symm.trans hfound
  · exact ⟨a, ha, hmeets.meets hreach hother⟩

/-- The literals of a distribution stand in the routine: every argument is a value or a layer. -/
theorem lowerBsdf_holds (kind : FunctionKind) (id : Nat)
    (hsource : Supplied (fun _ _ _ => True) g source s) (haux : ∀ a ∈ aux, a < s.body.size)
    (hs : s.pool.Sound) :
    Ensures (lowerBsdf env g kind source aux id) s fun _ s' =>
      s'.HoldsAll env (env.resolver.Meets g [id]) := by
  let I : Interpretation Unit := fun _ _ _ => ()
  obtain ⟨scope, hprovides⟩ := hsource.exists_provides I haux
  have hwalk : Advances (env.Admits fun _ _ _ => True) (lowerBsdf env g kind source aux id) s
      fun instr s' => BsdfRight env I g kind scope s' id instr ∧
        s'.HoldsAll env (env.resolver.Meets g [id]) := by
    refine lowerBsdf_advances
      (Q := fun a id s => Right env I g scope s a id ∧ s.HoldsAll env (env.resolver.Meets g [a]))
      (R := fun a id s => BsdfRight env I g kind scope s a id ∧
        s.HoldsAll env (env.resolver.Meets g [a]))
      (fun h h' => ⟨h.1.of_grows h'.grows, h.2.of_steps h'⟩)
      (fun h h' => ⟨h.1.of_grows h'.grows, h.2.of_steps h'⟩) ?_ ?_ id
    · intro a s₁ h₁
      have hsource₁ := hsource.of_steps h₁
      exact (lowerRoot_right a (hprovides.of_extends h₁.grows.body) hsource₁).and
        (lowerRoot_holds a hsource₁ (below_of_steps h₁ haux) (h₁.reaches.sound hs))
    · intro id node name args values layers s₁ hat hcheck h₁ hvalues hlayers
      refine (combineBsdf_right hat hcheck (hvalues.imp fun _ _ h => h.1)
        (hlayers.imp fun _ _ h => h.1)).and_steps.mono fun instr s₂ h => ⟨h.2, ?_⟩
      intro v hv
      obtain ⟨a, ha, hmeets⟩ := hv.of_bsdfAt hat
      by_cases hbsdf : isBsdfNode g a = true
      · obtain ⟨_, _, _, hheld⟩ :=
          Assembly.exists_mem_of_forall₂ hlayers (mem_filter.mpr ⟨ha, hbsdf⟩)
        exact hheld.of_steps h.1 v hmeets
      · obtain ⟨_, _, _, hheld⟩ := Assembly.exists_mem_of_forall₂ hvalues
          (mem_filter.mpr ⟨ha, by simpa using hbsdf⟩)
        exact hheld.of_steps h.1 v hmeets
  exact fun result s' hrun => (hwalk.ends result s' hrun).2

end

namespace Assembly

variable {env : LowerEnv} {s : LowerState} {v : Value}

/-- The first entry point of a distribution computes all auxiliary fragments. -/
theorem lowerAux_init_holds (block : Option BlockBinding) (index : Nat)
    (fragments : List Fragment) (hs : s.pool.Sound) :
    Ensures (lowerAux env .dfInit (BlockBinding.source block) index fragments) s fun _ s' =>
      ∀ f ∈ fragments, s'.HoldsAll env (env.resolver.Meets f.graph (f.rootNodes.take 1)) := by
  induction fragments generalizing index s with
  | nil => exact .pure (forall_mem_nil _)
  | cons f rest ih =>
    cases htype : f.rootType? 0 with
    | none =>
      rw [lowerAux_of_untyped htype]
      exact .throw
    | some type =>
      obtain ⟨root, more, hroots⟩ := exists_root_of_type htype
      have hsource := supplied_source f.graph block s
      have hnone : ∀ a ∈ ([] : List Nat), a < s.body.size := forall_mem_nil _
      have hemits : Emits (env.Admits fun _ _ _ => True)
          (lowerRoot env f.graph root (BlockBinding.source block) []) s :=
        lowerRoot_emits root hsource hnone
      have hfirst : Ensures (lowerRoot env f.graph root (BlockBinding.source block) []
          >>= noteCached (isCached env.options.numTextureResults index type)) s fun _ s₁ =>
            s₁.pool.Sound ∧ s₁.HoldsAll env (env.resolver.Meets f.graph [root]) := by
        refine (hemits.and (lowerRoot_holds root hsource hnone hs)).ensures.bind ?_
        rintro id s₁ ⟨h₁, -, hholds⟩ id' s₂ hrun
        unfold noteCached at hrun
        split at hrun <;> cases hrun <;> exact ⟨h₁.reaches.sound hs, hholds⟩
      rw [lowerAux_cons htype hroots, lowerAuxRoot_init]
      refine hfirst.bind fun id s₁ hfirst => ?_
      obtain ⟨hs₁, hfirst⟩ := hfirst
      refine ((lowerAux_init_advances block (index + 1) rest s₁).and
        (ih (index + 1) hs₁)).ensures.bind ?_
      rintro others s₂ ⟨h₂, -, hrest⟩
      refine .pure ?_
      intro f' hf'
      rcases mem_cons.mp hf' with rfl | hf'
      · rw [hroots]
        exact hfirst.of_steps h₂
      · exact hrest f' hf'

/-- The first entry point of a distribution has the literals of the auxiliary fragments, and every
other one has those of the distribution itself. -/
theorem lowerEntry_holds (kind : FunctionKind) (block : Option BlockBinding) (hs : s.pool.Sound) :
    Ensures (lowerEntry env d root kind (BlockBinding.source block)) s fun _ s' =>
      (kind = .dfInit →
        ∀ f ∈ d.aux, s'.HoldsAll env (env.resolver.Meets f.graph (f.rootNodes.take 1))) ∧
      (kind ≠ .dfInit → s'.HoldsAll env (env.resolver.Meets d.main.graph [root])) := by
  by_cases hkind : kind = .dfInit
  · subst hkind
    refine (lowerAux_init_holds block 0 d.aux hs).bind fun aux s₁ haux => ?_
    exact .pure ⟨fun _ => haux, fun h => absurd rfl h⟩
  · have haux := @lowerAux_within env (fun _ _ _ => True) s (BlockBinding.source block) kind 0 d.aux
      fun f _ => supplied_source f.graph block s
    refine haux.ensures.bind ?_
    rintro aux s₁ ⟨h₁, hwithin⟩
    rw [if_neg hkind]
    refine (lowerBsdf_holds kind root (supplied_source d.main.graph block s₁) hwithin.results
      (h₁.reaches.sound hs)).bind fun result s₂ hholds => ?_
    exact .pure ⟨fun h => absurd h hkind, fun _ => hholds⟩

end Assembly

/-! ## Literals of items -/

/-- A literal stood in a routine before it was optimised; the strings and the data of the program
are in the pool. -/
def Routine.Holds (r : Routine) (env : LowerEnv) (pool : DataPool) (v : Value) : Prop :=
  ∃ (raw : Routine) (t : ValueType) (id : Nat),
    r = raw.optimize env.options.optLevel env.options.fastMath ∧
      Encoded env.rules (env.Handle pool.strings) raw.body pool.bytes v t id

theorem Routine.Holds.of_reaches {r : Routine} {env : LowerEnv} {p q : DataPool}
    (h : r.Holds env p v) (hpq : p.Reaches q) : r.Holds env q v := by
  obtain ⟨raw, t, id, hr, hencoded⟩ := h
  exact ⟨raw, t, id, hr, (hencoded.of_longer (Extends.refl _) hpq.bytes).mono
    (.of_grows hpq.grows.strings)⟩

namespace Assembly

variable {env : LowerEnv} {v : Value} {a a' : Assembly} {s : AssemblySettings}

theorem lowerRoutine_holds {r r' : Routine} {lower : LowerM RoutineResult}
    (h : a.lowerRoutine env.options r lower = (.ok r', a'))
    (hlower : Ensures lower ⟨a.pool, #[], .none⟩ fun _ s' => s'.Holds env v) :
    r'.Holds env a'.pool v := by
  obtain ⟨result, s', hrun, rfl, rfl⟩ := lowerRoutine_eq_ok_iff.mp h
  obtain ⟨t, id, hencoded⟩ := hlower result s' hrun
  exact ⟨_, t, id, rfl, hencoded⟩

/-- A literal that the code of one of the jobs holds stands in its routine. -/
theorem Lowers.holds {jobs : List Job} {new : List Routine} {o : Options}
    {Loads : Nat → Nat → ValueType → Prop} {block : Option Nat} (h : Lowers o jobs a new a')
    (ho : o = env.options) (hjobs : ∀ job ∈ jobs, job.Sound env Loads block)
    (hpool : a.pool.Sound) {job : Job} (hjob : job ∈ jobs) (hcode : ∀ pool : DataPool, pool.Sound →
      Ensures job.code ⟨pool, #[], .none⟩ fun _ s' => s'.Holds env v) :
    ∃ r ∈ new, r.Holds env a'.pool v := by
  subst ho
  induction h with
  | nil => cases hjob
  | cons hfirst hrest ih =>
    have hothers := fun other hother => hjobs other (mem_cons_of_mem _ hother)
    rcases mem_cons.mp hjob with rfl | hjob
    · exact ⟨_, mem_cons_self, (lowerRoutine_holds hfirst (hcode _ hpool)).of_reaches
        (hrest.adds rfl hothers).pool⟩
    · have hreaches := ((hjobs _ mem_cons_self).adds hfirst).pool
      obtain ⟨r, hr, hholds⟩ := ih hothers (hreaches.sound hpool) hjob
      exact ⟨r, mem_cons_of_mem _ hr, hholds⟩

end Assembly

/-- The literals of an item that are lowered.  Each fragment of a distribution has one result. -/
def Compilable.Lowers (item : Compilable) (names : Resolver) (v : Value) : Prop :=
  match item with
  | .function f _ => names.Meets f.graph f.rootNodes v
  | .distribution d => ∃ f ∈ d.main :: d.aux, names.Meets f.graph (f.rootNodes.take 1) v

/-- Each literal of an item is held by the code of one of its jobs. -/
theorem Compilable.exists_job_holds {item : Compilable} {s : AssemblySettings}
    {jobs : List Assembly.Job} (hjobs : item.jobs s resources block = .ok jobs)
    (hv : item.Lowers s.resolver v) : ∃ job ∈ jobs, ∀ pool : DataPool, pool.Sound →
      Ensures job.code ⟨pool, #[], .none⟩ fun _ s' => s'.Holds (item.lowerEnv s resources) v := by
  cases item with
  | function f kind =>
    cases Assembly.fragmentJobs_eq_ok hjobs
    refine ⟨_, mem_cons_self, fun pool hpool => ?_⟩
    exact (lowerGraph_holds LowerError.nestingLimit f.rootNodes (supplied_source f.graph block _)
      (forall_mem_nil _) hpool).bind fun results s' hholds => .pure (hholds v hv)
  | distribution d =>
    obtain ⟨root, more, hroots, rfl⟩ := Assembly.distributionJobs_eq_ok hjobs
    obtain ⟨f, hf, hv⟩ := hv
    have hentry := fun entry (hentry : entry ∈ FunctionKind.distributionEntries) =>
      mem_map_of_mem (f := Assembly.entryJob (s.distributionEnv d resources) d root block)
        hentry
    rcases mem_cons.mp hf with rfl | hf
    · rw [hroots] at hv
      refine ⟨_, hentry (.dfSample, "sample") (by decide), fun pool hpool => ?_⟩
      exact (Assembly.lowerEntry_holds .dfSample block hpool).mono
        fun _ s' hholds => hholds.2 (by decide) v hv
    · refine ⟨_, hentry (.dfInit, "init") (by decide), fun pool hpool => ?_⟩
      exact (Assembly.lowerEntry_holds .dfInit block hpool).mono
        fun _ s' hholds => hholds.1 rfl f hf v hv

/-- The literals of an item that was lowered stand in its routines; the setting has the options
and the rules of the compile. -/
theorem Compilation.lowerItem_holds {c : Compilation} {s : Surroundings} {item : Compilable}
    {a : Assembly} (hpool : c.assembly.pool.Sound)
    (h : c.lowerItem s item resources block = (.ok (), a)) (hv : item.Lowers s.library v) :
    ∃ env : LowerEnv, env.options = c.options ∧ env.rules = c.target.rules ∧
      ∃ r ∈ a.routines, r.Holds env a.pool v := by
  obtain ⟨jobs, new, b, hjobs, hlowers, rfl⟩ := Assembly.addJobs_eq_ok_iff.mp h
  obtain ⟨job, hjob, hcode⟩ := Compilable.exists_job_holds hjobs hv
  have hoptions := item.lowerEnv_options (c.settings s) resources
  obtain ⟨r, hr, hholds⟩ := hlowers.holds hoptions.symm
    (Compilable.jobs_sound (fun f _ => supplied_source f.graph block) hjobs) hpool hjob hcode
  exact ⟨_, hoptions, item.lowerEnv_rules _ resources, r, mem_append_right _ hr, hholds⟩

end Shading
