import Shading.Proofs.Lowering.Routine

/-!
# What adding functions does to a program

A fragment or a distribution that was added has appended routines, and has added to the
data.  The routines are well formed, refer only to what is there, and read only what was noted.

Main definitions:

- `Routine.Sound` says that a routine is well formed and in bounds.
- `Assembly.Job.Sound` says that a job is lowered by steps.
- `Assembly.Adds` relates a program to the one after routines were added.

Main results:

- Theorem `Assembly.Lowers.adds`: what jobs do that are lowered by steps.
- Theorem `Compilable.jobs_sound`: the jobs of an item are.
- Theorem `Compilation.lowerItem_adds`: what lowering an item does.
-/

namespace Shading

open List

/-- A well-formed routine whose instructions refer only to what is there, and which stores
into texture results that exist, into each at most once. -/
structure Routine.Sound (o : Options) (rules : LayoutRules)
    (Loads : Nat → Nat → ValueType → Prop) (pool : DataPool) (r : Routine) : Prop where
  wellFormed : r.WellFormed
  instrs : ∀ i ∈ r.body, Admissible o rules Loads pool i
  slots : ∀ slot ∈ r.stores.map Prod.fst, slot < o.numTextureResults
  distinct : (r.stores.map Prod.fst).Nodup

theorem Routine.Sound.of_reaches {o : Options} {rules : LayoutRules}
    {Loads : Nat → Nat → ValueType → Prop} {p q : DataPool} {r : Routine}
    (h : r.Sound o rules Loads p) (hpq : p.Reaches q) : r.Sound o rules Loads q :=
  ⟨h.wellFormed, fun i hi => (h.instrs i hi).of_reaches hpq, h.slots, h.distinct⟩

theorem Routine.Sound.of_loads {o : Options} {rules : LayoutRules}
    {Loads Loads' : Nat → Nat → ValueType → Prop} {pool : DataPool} {r : Routine}
    (h : r.Sound o rules Loads pool)
    (hloads : ∀ block offset t, Loads block offset t → Loads' block offset t) :
    r.Sound o rules Loads' pool :=
  ⟨h.wellFormed, fun i hi => (h.instrs i hi).of_loads hloads, h.slots, h.distinct⟩

variable {env : LowerEnv} {Loads : Nat → Nat → ValueType → Prop}

namespace Assembly

/-- A job that is lowered by steps, for a routine of the context with the given argument block. -/
structure Job.Sound (env : LowerEnv) (Loads : Nat → Nat → ValueType → Prop) (block : Option Nat)
    (job : Job) : Prop where
  argBlock : job.header.argBlock = block
  context : job.header.context = env.context
  within : ∀ pool, Advances (env.Admits Loads) job.code ⟨pool, #[], .none⟩
    fun result s' => result.Within 0 env.options.numTextureResults s'

/-- What adding routines does: they have one argument block and one context, they are sound, and
what they read is noted.  Data is added, and flags are. -/
structure Adds (env : LowerEnv) (Loads : Nat → Nat → ValueType → Prop) (block : Option Nat)
    (new : List Routine) (a a' : Assembly) : Prop where
  argBlock : ∀ r ∈ new, r.argBlock = block
  context : ∀ r ∈ new, r.context = env.context
  sound : ∀ r ∈ new, r.Sound env.options env.rules Loads a'.pool
  accounted : ∀ r ∈ new, r.Accounted a'.usage
  pool : a.pool.Reaches a'.pool
  usage : ∀ flag, a.usage.has flag = true → a'.usage.has flag = true

variable {block : Option Nat} {new new' : List Routine} {a b c : Assembly} {jobs : List Job}

theorem Adds.append (h : Adds env Loads block new a b) (h' : Adds env Loads block new' b c) :
    Adds env Loads block (new ++ new') a c where
  argBlock r hr := (mem_append.mp hr).elim (h.argBlock r) (h'.argBlock r)
  context r hr := (mem_append.mp hr).elim (h.context r) (h'.context r)
  sound r hr := (mem_append.mp hr).elim (fun hr => (h.sound r hr).of_reaches h'.pool)
    (h'.sound r)
  accounted r hr := (mem_append.mp hr).elim (fun hr => (h.accounted r hr).mono h'.usage)
    (h'.accounted r)
  pool := h.pool.trans h'.pool
  usage flag hflag := h'.usage flag (h.usage flag hflag)

/-- A routine that was lowered by steps is sound, also after optimisation. -/
theorem Job.Sound.adds {job : Job} (hjob : job.Sound env Loads block) {r : Routine}
    (h : a.lowerRoutine env.options job.header job.code = (.ok r, b)) :
    Adds env Loads block [r] a b := by
  obtain ⟨result, t, hrun, rfl, rfl⟩ := lowerRoutine_eq_ok_iff.mp h
  have hsteps := (hjob.within a.pool).steps
  have hwithin := (hjob.within a.pool).ends _ _ hrun
  rw [hrun] at hsteps
  have hinstrs := hsteps.forall_instr (fun hstep hi => hi.of_step hstep)
    fun i hi => absurd hi (Array.not_mem_empty i)
  have hraw : Routine.WellFormed
      { job.header with body := t.body, results := result.results, stores := result.stores } :=
    ⟨hsteps.grows.ordered ordered_empty, hwithin.results, hwithin.stores⟩
  have hheader := finishRoutine_sameHeader env.options job.header result t.body
  have hstores : (finishRoutine env.options job.header result t.body).stores.map Prod.fst
      = result.stores.map Prod.fst := hheader.stores
  have hsound : (finishRoutine env.options job.header result t.body).Sound env.options env.rules
      Loads t.pool := by
    refine ⟨hraw.optimize _ _, Routine.forall_optimize (Admissible.robust _ _ _ _)
      (fun i hi => (hinstrs i hi).refers) _ _, ?_, hstores ▸ hwithin.distinct⟩
    rw [hstores]
    intro slot hslot
    obtain ⟨st, hst, rfl⟩ := mem_map.mp hslot
    exact (hwithin.slots st hst).2
  have haccounted : (finishRoutine env.options job.header result t.body).Accounted t.usage := by
    refine ⟨?_, fun hne => hwithin.noted fun hnil => hne ?_⟩
    · rw [hheader.context.trans hjob.context]
      exact Routine.forall_optimize (Op.Accounted.robust _ _) (fun i hi => (hinstrs i hi).accounted)
        _ _
    · rw [hnil] at hstores
      exact map_eq_nil_iff.mp hstores
  refine ⟨forall_mem_singleton.mpr (hheader.argBlock.trans hjob.argBlock),
    forall_mem_singleton.mpr (hheader.context.trans hjob.context),
    forall_mem_singleton.mpr hsound,
    forall_mem_singleton.mpr (haccounted.mono fun flag hflag => ?_), hsteps.reaches,
    fun flag hflag => ?_⟩
  · rw [StateUsage.has_union, hflag, Bool.or_true]
  · dsimp only
    rw [StateUsage.has_union, hflag, Bool.true_or]

/-- What jobs do that are lowered by steps. -/
theorem Lowers.adds {o : Options} (h : Lowers o jobs a new b) (ho : o = env.options)
    (hjobs : ∀ job ∈ jobs, job.Sound env Loads block) : Adds env Loads block new a b := by
  subst ho
  induction h with
  | nil => exact ⟨by simp, by simp, by simp, by simp, .refl, fun _ h => h⟩
  | cons hfirst _ ih =>
    exact ((hjobs _ mem_cons_self).adds hfirst).append
      (ih fun job hjob => hjobs job (mem_cons_of_mem _ hjob))

end Assembly

/-! ## Items -/

variable {item : Compilable} {resources : ResourceMap} {block : Option BlockBinding}

/-- The jobs of an item are lowered by steps, if its parameters can be read. -/
theorem Compilable.jobs_sound {s : AssemblySettings} {jobs : List Assembly.Job}
    (hsource : ∀ f ∈ item.fragments, ∀ s₀, Supplied Loads f.graph (BlockBinding.source block) s₀)
    (h : item.jobs s resources block = .ok jobs) :
    ∀ job ∈ jobs, job.Sound (item.lowerEnv s resources) Loads (block.map (·.index)) := by
  cases item with
  | function f kind =>
    cases Assembly.fragmentJobs_eq_ok h
    exact forall_mem_singleton.mpr ⟨rfl, rfl, fun pool =>
      Assembly.lowerFragment_within (hsource f mem_cons_self _)⟩
  | distribution d =>
    obtain ⟨root, more, hroots, rfl⟩ := Assembly.distributionJobs_eq_ok h
    refine forall_mem_map.mpr fun entry _ => ⟨rfl, rfl, fun pool => ?_⟩
    exact Assembly.lowerEntry_within root entry.1 (hsource d.main mem_cons_self _)
      fun f hf => hsource f (mem_cons_of_mem _ hf) _

/-- What lowering an item does to the program. -/
theorem Compilation.lowerItem_adds {c : Compilation} {s : Surroundings} {a : Assembly}
    (hsource : ∀ f ∈ item.fragments, ∀ s₀, Supplied Loads f.graph (BlockBinding.source block) s₀)
    (h : c.lowerItem s item resources block = (.ok (), a)) :
    ∃ new pool usage, a = { c.assembly with routines := c.assembly.routines ++ new, pool, usage } ∧
      Assembly.Adds (item.lowerEnv (c.settings s) resources) Loads (block.map (·.index)) new
        c.assembly a := by
  obtain ⟨jobs, new, b, hjobs, hlowers, rfl⟩ := Assembly.addJobs_eq_ok_iff.mp h
  have hadds := hlowers.adds (item.lowerEnv_options (c.settings s) resources).symm
    (Compilable.jobs_sound hsource hjobs)
  obtain ⟨pool, usage, rfl⟩ := hlowers.frame
  exact ⟨new, pool, usage, rfl, hadds.argBlock, hadds.context, hadds.sound, hadds.accounted,
    hadds.pool, hadds.usage⟩

end Shading
