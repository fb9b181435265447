import Shading.Proofs.Lowering.Distribution
import Shading.Proofs.Lowering.SharedData

/-!
# Texture results make no difference

A distribution becomes four functions.  The first one stores values of auxiliary fragments
in texture results, and the others read them back instead of computing them.  The other
functions then return what they would return without any texture results.

The two ways to compile a distribution place the same data: the first function asks for all
data of auxiliary fragments in both, so it does not matter that the others meet some of the
fragments only in one of them.

Main definitions:

- `Distribution.EntryPoints` holds the four functions of a distribution.
- `Interpretation.Settles` says that a state follows another one in which stores were made.

Main results:

- Theorem `lowerEntry_repeats`: an entry point can be lowered for another number of texture
  results, and places the same data.
- Theorem `lowerEntries_pairs`: entry points that are lowered in both ways return the same.
- Theorem `texture_results_are_transparent`: what the first function stores, and what the
  others return.
-/

namespace Shading

open List

variable {V : Type}

/-- The settings with another number of texture results. -/
def AssemblySettings.withTextureResults (s : AssemblySettings) (n : Nat) : AssemblySettings :=
  { s with options := s.options.withTextureResults n }

namespace Assembly

/-! ## One entry point -/

section

variable {env : LowerEnv} {d : Distribution} {root : Nat} {block : Option BlockBinding}
  {kind : FunctionKind}

/-- All data of the auxiliary fragments is in a pool. -/
def HasAuxData (env : LowerEnv) (d : Distribution) (source : ParameterSource)
    (pool : DataPool) : Prop :=
  ∃ s r t, (lowerAux env .dfInit source 0 d.aux).run s = (.ok r, t) ∧ t.pool.Grows pool

/-- An entry point that was lowered can be lowered for another number of texture results,
and places the same data. -/
theorem lowerEntry_repeats (hkind : kind ≠ .dfInit) (n : Nat) {source : ParameterSource}
    {s : LowerState} (hdata : HasAuxData env d source s.pool) {r : RoutineResult}
    {t : LowerState} (h : (lowerEntry env d root kind source).run s = (.ok r, t)) :
    ∃ r' t', (lowerEntry (env.withTextureResults n) d root kind source).run s = (.ok r', t') ∧
      t'.pool = t.pool := by
  obtain ⟨s₀, r₀, t₀, hinit, hgrows⟩ := hdata
  -- with the data there, the auxiliary fragments leave the pool as it is, in both ways
  have haux : ∀ n, Repeats .again (fun r r' => r.results.length = r'.results.length)
      (lowerAux env .dfInit source 0 d.aux)
      (lowerAux (env.withTextureResults n) kind source 0 d.aux) :=
    fun n => lowerAux_repeats (fun h => by cases h) n source 0 d.aux
  have haux := fun n => (haux n s₀ r₀ t₀ hinit).2 s hgrows
  obtain ⟨aux, s₁, hrun, hbsdf⟩ := exists_of_run_bind h
  obtain ⟨aux', s₁', hrun', hlen', hpool'⟩ := haux env.options.numTextureResults
  cases hrun.symm.trans hrun'
  obtain ⟨aux'', s₁'', hrun'', hlen'', hpool''⟩ := haux n
  have hlen : aux.results.length = aux''.results.length := hlen'.symm.trans hlen''
  have hsame : s₁''.pool = s₁.pool := hpool''.trans hpool'.symm
  rw [if_neg hkind] at hbsdf
  obtain ⟨id, t, hrun, hpure⟩ := exists_of_run_bind hbsdf
  cases hpure
  have hmain : RepeatsId .fresh (lowerBsdf env d.main.graph kind source aux.results root)
      (lowerBsdf env d.main.graph kind source aux''.results root) :=
    lowerBsdf_repeats hlen kind root
  obtain ⟨id', t', hrun', _, hpool⟩ := (hmain _ _ _ hrun).2 s₁'' hsame
  refine ⟨⟨[id'], []⟩, t', ?_, hpool⟩
  rw [← lowerBsdf_withTextureResults env n] at hrun'
  rw [lowerEntry, run_bind_of_ok hrun'', if_neg hkind, run_bind_of_ok hrun']
  rfl

end

/-! ## Routines -/

section

variable {env : LowerEnv} {I : Interpretation V} {o : Options} {d : Distribution} {root : Nat}
  {block : Option BlockBinding} {entry : FunctionKind × String} {s t : LowerState}
  {result : RoutineResult}

variable {r : Routine}

/-- Optimisation without fast arithmetic keeps what a routine returns and stores. -/
theorem finishRoutine_values (hfast : o.fastMath = false) (hr : Routine.WellFormed
      { r with body := t.body, results := result.results, stores := result.stores })
    (hI : I.FoldsAnywhere) :
    (finishRoutine o r result t.body).resultValues I = result.results.map (valueAt I t.body) ∧
      (finishRoutine o r result t.body).storeValues I
        = result.stores.map fun st => (st.1, valueAt I t.body st.2) := by
  unfold finishRoutine
  rw [hfast]
  exact hr.optimize_sameValues_of_foldsOn o.optLevel (hI.foldsOn _ _) hI.toFolds nofun

/-- An entry point returns the value of the distribution. -/
theorem entry_returns (hfast : o.fastMath = false) (hkind : entry.1 ≠ .dfInit) {n : Nat}
    (hs : Ordered s.body)
    (h : (lowerEntry (env.withTextureResults n) d root entry.1 (BlockBinding.source block)).run s
      = (.ok result, t)) {p : DataPool} (hp : t.pool.Grows p) (hI : I.FoldsAnywhere)
    (hholds : HoldsCached env I p block (cachedAux n 0 d.aux)) :
    ∃ x, (finishRoutine o (entryRoutine d block entry) result t.body).resultValues I = [some x] ∧
      EntryValue env I p block d entry.1 root x := by
  obtain ⟨hgrows, hstores, id, x, hresults, hx, hvalue⟩ :=
    lowerEntry_right (I := I) hkind block n root result t h
  refine ⟨x, ?_, hvalue p hp hholds⟩
  have hbody : Ordered t.body := hgrows.ordered hs
  have hid : id < t.body.size := lt_size_of_valueAt hx
  rw [(finishRoutine_values hfast ⟨hbody, ?_, ?_⟩ hI).1, hresults, map_singleton, hx]
  · rw [hresults]
    exact fun a ha => mem_singleton.mp ha ▸ hid
  · rw [hstores]
    exact forall_mem_nil _

theorem exists_mem_of_forall₂ {α β : Type} {R : α → β → Prop} {l : List α} {l' : List β}
    (h : Forall₂ R l l') {a : α} (ha : a ∈ l) : ∃ b ∈ l', R a b := by
  induction h with
  | nil => cases ha
  | @cons a' b _ _ hab _ ih =>
    rcases mem_cons.mp ha with rfl | ha
    · exact ⟨b, mem_cons_self, hab⟩
    · obtain ⟨b', hb', hR⟩ := ih ha
      exact ⟨b', mem_cons_of_mem _ hb', hR⟩

/-- What a store of an auxiliary value puts into a slot. -/
def StoresAux (env : LowerEnv) (I : Interpretation V) (pool : DataPool)
    (block : Option BlockBinding) (f : Fragment × Nat) (store : Nat × Option V) : Prop :=
  store.1 = f.2 ∧ ∃ x, store.2 = some x ∧ AuxValue env I pool block f.1 x

/-- The first entry point stores the values of the auxiliary fragments that are cached. -/
theorem init_stores (hfast : o.fastMath = false) {n : Nat} (hs : Ordered s.body)
    (h : (lowerEntry (env.withTextureResults n) d root .dfInit (BlockBinding.source block)).run s
      = (.ok result, t)) {p : DataPool} (hp : t.pool.Grows p) (hI : I.FoldsAnywhere) :
    Forall₂ (StoresAux env I p block) (cachedAux n 0 d.aux)
      ((finishRoutine o r result t.body).storeValues I) := by
  obtain ⟨hgrows, hresults, hstores⟩ :=
    lowerEntry_init_right (I := I) block n root result t h
  have hbody : Ordered t.body := hgrows.ordered hs
  rw [(finishRoutine_values hfast ⟨hbody, ?_, ?_⟩ hI).2, forall₂_map_right_iff]
  · refine hstores.imp fun f st hst => ?_
    obtain ⟨hslot, x, hx, hvalue⟩ := hst
    exact ⟨hslot, x, hx, hvalue p hp⟩
  · rw [hresults]
    exact forall_mem_nil _
  · intro st hst
    obtain ⟨_, _, _, x, hx, _⟩ := exists_mem_of_forall₂ hstores.flip hst
    exact lt_size_of_valueAt hx

/-- The first entry point reads no texture results: its code is admissible where there are
none. -/
theorem lowerAux_init_advances (block : Option BlockBinding) (index : Nat)
    (fragments : List Fragment) (s : LowerState) :
    Advances ((env.withTextureResults 0).Admits fun _ _ _ => True)
      (lowerAux env .dfInit (BlockBinding.source block) index fragments) s fun _ _ => True := by
  induction fragments generalizing index s with
  | nil => exact .pure trivial
  | cons f rest ih =>
    cases htype : f.rootType? 0 with
    | none =>
      rw [lowerAux_of_untyped htype]
      exact .throw
    | some type =>
      obtain ⟨root, more, hroots⟩ := exists_root_of_type htype
      rw [lowerAux_cons htype hroots, lowerAuxRoot_init]
      have hroot : Emits ((env.withTextureResults 0).Admits fun _ _ _ => True)
          (lowerRoot (env.withTextureResults 0) f.graph root (BlockBinding.source block) []) s :=
        lowerRoot_emits root (supplied_source f.graph block s) (forall_mem_nil _)
      rw [lowerRoot_withTextureResults] at hroot
      have hnote : ∀ id s₁, Advances ((env.withTextureResults 0).Admits fun _ _ _ => True)
          (noteCached (isCached env.options.numTextureResults index type) id) s₁
          fun _ _ => True := by
        intro id s₁
        unfold noteCached
        split
        · exact (noteUsage_advances _ s₁).bind fun _ _ _ _ => .pure trivial
        · exact .pure trivial
      refine (hroot.bind fun id s₁ _ _ => hnote id s₁).bind fun id s₁ _ _ => ?_
      exact (ih (index + 1) s₁).bind fun _ _ _ _ => .pure trivial

theorem init_reads_nothing {pool : DataPool}
    (h : (lowerEntry env d root .dfInit (BlockBinding.source block)).run ⟨pool, #[], .none⟩
      = (.ok result, t)) :
    ∀ i ∈ (finishRoutine o r result t.body).body, ∀ slot, i.op ≠ .textureResult slot := by
  have hadvances : Advances ((env.withTextureResults 0).Admits fun _ _ _ => True)
      (lowerEntry env d root .dfInit (BlockBinding.source block)) ⟨pool, #[], .none⟩
      fun _ _ => True :=
    (lowerAux_init_advances block 0 d.aux _).bind fun _ _ _ _ => .pure trivial
  have hsteps := hadvances.steps
  rw [h] at hsteps
  have hraw := hsteps.forall_instr (fun hstep hi => hi.of_step hstep)
    fun i hi => absurd hi (Array.not_mem_empty i)
  intro i hi slot hop
  have hadmissible := Routine.forall_optimize (Admissible.robust _ _ _ _)
    (r := { r with body := t.body, results := result.results, stores := result.stores })
    (fun i hi => (hraw i hi).refers) o.optLevel o.fastMath i hi
  rw [Admissible, hop] at hadmissible
  exact Nat.not_lt_zero slot hadmissible

end

/-! ## All entry points -/

/-- The name, the kind and the argument block of an entry point. -/
structure HasHeader (d : Distribution) (block : Option BlockBinding)
    (entry : FunctionKind × String) (r : Routine) : Prop where
  name : r.name = d.name ++ "_" ++ entry.2
  kind : r.kind = entry.1
  argBlock : r.argBlock = block.map (·.index)

theorem finishRoutine_header (o : Options) (d : Distribution) (block : Option BlockBinding)
    (entry : FunctionKind × String) (result : RoutineResult) (body : Array Instr) :
    HasHeader d block entry (finishRoutine o (entryRoutine d block entry) result body) := by
  have hheader := Routine.optimize_sameHeader { entryRoutine d block entry with
    body, results := result.results, stores := result.stores } o.optLevel o.fastMath
  exact ⟨hheader.name, hheader.kind, hheader.argBlock⟩

/-- Two routines that return the same value in every state in which the texture results hold
what is cached. -/
def ReturnAlike (env : LowerEnv) (d : Distribution) (block : Option BlockBinding)
    (pool : DataPool) (r r₀ : Routine) : Prop :=
  ∀ (V : Type) (I : Interpretation V) (p : DataPool), pool.Grows p → I.FoldsAnywhere →
    HoldsCached env I p block (cachedAux env.options.numTextureResults 0 d.aux) →
    ∃ x, r.resultValues I = [some x] ∧ r₀.resultValues I = [some x]

/-- Two routines for each entry point of a list. -/
inductive EntryPairs (P : FunctionKind × String → Routine → Routine → Prop) :
    List (FunctionKind × String) → List Routine → List Routine → Prop
  | nil : EntryPairs P [] [] []
  | cons {entry : FunctionKind × String} {r r₀ : Routine}
    {entries : List (FunctionKind × String)} {rs rs₀ : List Routine} :
    P entry r r₀ → EntryPairs P entries rs rs₀ →
    EntryPairs P (entry :: entries) (r :: rs) (r₀ :: rs₀)

/-- The routines of an entry point that are lowered with and without texture results. -/
structure EntryPair (env : LowerEnv) (d : Distribution) (block : Option BlockBinding)
    (pool : DataPool) (entry : FunctionKind × String) (r r₀ : Routine) : Prop where
  header : HasHeader d block entry r
  plainHeader : HasHeader d block entry r₀
  alike : ReturnAlike env d block pool r r₀

section

variable {s : AssemblySettings} {env : LowerEnv} {d : Distribution} {root : Nat}
  {block : Option BlockBinding}

theorem cachedAux_zero (index : Nat) (fragments : List Fragment) :
    cachedAux 0 index fragments = [] := by
  have hnone : isCached 0 = fun _ _ => false := by
    funext index type
    simp [isCached]
  simp [cachedAux, hnone]

theorem HasAuxData.of_grows {source : ParameterSource} {p q : DataPool}
    (h : HasAuxData env d source p) (hpq : p.Grows q) : HasAuxData env d source q := by
  obtain ⟨s₀, r, t, hrun, hgrows⟩ := h
  exact ⟨s₀, r, t, hrun, hgrows.trans hpq⟩

/-- One entry point with and without texture results. -/
theorem lowerRoutine_pair {o : Options} (hfast : o.fastMath = false)
    {entry : FunctionKind × String} (hkind : entry.1 ≠ .dfInit) {a a' b : Assembly}
    (hdata : HasAuxData env d (BlockBinding.source block) a.pool) (hpool : b.pool = a.pool)
    {r : Routine} (h : a.lowerRoutine o (entryRoutine d block entry)
      (lowerEntry env d root entry.1 (BlockBinding.source block)) = (.ok r, a')) :
    ∃ r₀ b', b.lowerRoutine (o.withTextureResults 0) (entryRoutine d block entry)
        (lowerEntry (env.withTextureResults 0) d root entry.1 (BlockBinding.source block))
        = (.ok r₀, b') ∧
      b'.pool = a'.pool ∧ b'.routines = b.routines ∧ a'.routines = a.routines ∧
      a.pool.Grows a'.pool ∧ EntryPair env d block a'.pool entry r r₀ := by
  obtain ⟨result, t, hrun, rfl, rfl⟩ := lowerRoutine_eq_ok_iff.mp h
  obtain ⟨result₀, t₀, hrun₀, hsame⟩ :=
    lowerEntry_repeats (s := ⟨a.pool, #[], .none⟩) hkind 0 hdata hrun
  have hgrows := (lowerEntry_right (I := fun _ _ _ => ()) hkind block
    env.options.numTextureResults root result t hrun).1.pool
  refine ⟨_, _, lowerRoutine_eq_ok_iff.mpr ⟨result₀, t₀, hpool ▸ hrun₀, rfl, rfl⟩, hsame, rfl,
    rfl, hgrows, finishRoutine_header _ _ _ _ _ _, finishRoutine_header _ _ _ _ _ _, ?_⟩
  intro V I p hp hI hholds
  obtain ⟨x, hx, hvalue⟩ := entry_returns (n := env.options.numTextureResults) hfast hkind
    ordered_empty hrun hp hI hholds
  have hplain : HoldsCached env I p block (cachedAux 0 0 d.aux) := by
    rw [cachedAux_zero]
    exact fun f slot hmem => absurd hmem not_mem_nil
  obtain ⟨y, hy, hvalue₀⟩ := entry_returns (o := o.withTextureResults 0) hfast hkind
    ordered_empty hrun₀ (hsame ▸ hp) hI hplain
  cases hvalue.unique hvalue₀
  exact ⟨x, hx, hy⟩

theorem EntryPair.of_grows {p q : DataPool} {entry : FunctionKind × String} {r r₀ : Routine}
    (h : EntryPair env d block p entry r r₀) (hpq : p.Grows q) :
    EntryPair env d block q entry r r₀ :=
  ⟨h.header, h.plainHeader, fun V I p' hp' => h.alike V I p' (hpq.trans hp')⟩

/-- Entry points one after the other, with and without texture results: each pair finds the
data of the auxiliary fragments there, and leaves equal data for the next one. -/
theorem lowerEntries_pairs (hfast : s.options.fastMath = false)
    {entries : List (FunctionKind × String)} (hentries : ∀ e ∈ entries, e.1 ≠ .dfInit)
    {a a' b : Assembly} (hdata : HasAuxData env d (BlockBinding.source block) a.pool)
    (hpool : b.pool = a.pool) {new : List Routine}
    (h : Lowers s.options (entries.map (entryJob env d root block)) a new a') :
    ∃ new₀ b', Lowers (s.withTextureResults 0).options
        (entries.map (entryJob (env.withTextureResults 0) d root block)) b new₀ b' ∧
      b'.routines = b.routines ∧ a'.routines = a.routines ∧ a.pool.Grows a'.pool ∧
      EntryPairs (EntryPair env d block a'.pool) entries new new₀ := by
  induction entries generalizing a b new with
  | nil =>
    cases h
    exact ⟨[], b, .nil, rfl, rfl, DataPool.Grows.refl _, .nil⟩
  | cons entry rest ih =>
    obtain _ | ⟨hlower, hrest⟩ := h
    obtain ⟨r₀, c₀, hlower₀, hpool₁, hroutines₀, hroutines, hgrows, hpair⟩ :=
      lowerRoutine_pair hfast (hentries entry mem_cons_self) hdata hpool hlower
    obtain ⟨routines₀, b', hrest₀, hroutines₀', hroutines', hgrows', hpairs⟩ :=
      ih (fun e he => hentries e (mem_cons_of_mem _ he)) (hdata.of_grows hgrows) hpool₁ hrest
    exact ⟨r₀ :: routines₀, b', .cons hlower₀ hrest₀, hroutines₀'.trans hroutines₀,
      hroutines'.trans hroutines, hgrows.trans hgrows', .cons (hpair.of_grows hgrows') hpairs⟩

end

end Assembly

/-! ## The theorem -/

/-- The four functions of a distribution. -/
structure Distribution.EntryPoints where
  init : Routine
  sample : Routine
  evaluate : Routine
  pdf : Routine

namespace Distribution.EntryPoints

/-- The functions in their order. -/
def toList (e : EntryPoints) : List Routine :=
  [e.init, e.sample, e.evaluate, e.pdf]

/-- The functions have the names and kinds of the entry points, and share the argument
block. -/
structure Belong (e : EntryPoints) (d : Distribution) (block : Option BlockBinding) : Prop where
  init : Assembly.HasHeader d block (.dfInit, "init") e.init
  sample : Assembly.HasHeader d block (.dfSample, "sample") e.sample
  evaluate : Assembly.HasHeader d block (.dfEvaluate, "evaluate") e.evaluate
  pdf : Assembly.HasHeader d block (.dfPdf, "pdf") e.pdf

end Distribution.EntryPoints

variable {d : Distribution}

/-- A state that follows another one: a texture result that was stored holds what was stored
when it is read at the type of its auxiliary fragment, and everything but texture results is
as before. -/
structure Interpretation.Settles (after before : Interpretation V) (d : Distribution)
    (stores : List (Nat × Option V)) : Prop where
  others : ∀ t o vs, (∀ slot, o ≠ .textureResult slot) → after t o vs = before t o vs
  results : ∀ slot x f t, (slot, some x) ∈ stores → d.aux[slot]? = some f →
    f.rootType? 0 = some t → after t.storage (.textureResult slot) [] = x

theorem Routine.storeValues_of_settles {before after : Interpretation V}
    {stores : List (Nat × Option V)} (h : after.Settles before d stores) {r : Routine}
    (hr : ∀ i ∈ r.body, ∀ slot, i.op ≠ .textureResult slot) :
    r.storeValues after = r.storeValues before := by
  have hsame := valueAt_congr (I := before) (J := after) fun i hi vs =>
    h.others i.type i.op.operator vs fun slot hop => hr i hi slot <| by
      cases hi : i.op <;> rw [hi] at hop <;> cases hop
      rfl
  unfold Routine.storeValues
  simp only [hsame]

/-- After the first entry point, the texture results hold the values of the auxiliary
fragments that are cached. -/
theorem Assembly.holdsCached_of_settles {env : LowerEnv} {before after : Interpretation V}
    {pool : DataPool} {block : Option BlockBinding} {n : Nat}
    {stores : List (Nat × Option V)} (h : after.Settles before d stores)
    (hstores : Forall₂ (StoresAux env after pool block) (cachedAux n 0 d.aux) stores) :
    HoldsCached env after pool block (cachedAux n 0 d.aux) := by
  intro f slot hmem type htype
  obtain ⟨⟨slot', value⟩, hstore, rfl, x, rfl, hvalue⟩ := exists_mem_of_forall₂ hstores hmem
  have hf : d.aux[slot']? = some f :=
    mem_zipIdx_iff_getElem?.mp (mem_filter.mp hmem).1
  rw [h.results slot' x f type hstore hf htype]
  exact hvalue

/-- Texture results make no difference.  A distribution that is added becomes four functions,
which have one argument block.  The first one stores, for exactly those auxiliary fragments
whose slot exists and whose type fits, their values into their slots.  The distribution could
have been added without any texture results; and in a state in which the texture results hold
what the first function stored, each of the other functions returns what it returns when it
is compiled like that.  Nodes of a graph may have any types, so the equations of folding are
asked for at every type. -/
theorem texture_results_are_transparent {a a' : Assembly} {s : AssemblySettings}
    (hfast : s.options.fastMath = false) {resources : ResourceMap} {block : Option BlockBinding}
    (h : a.addDistribution s d resources block = (.ok (), a')) :
    ∃ (e e₀ : Distribution.EntryPoints) (a₀ : Assembly),
      a'.routines = a.routines ++ e.toList ∧ e.Belong d block ∧
      a.addDistribution (s.withTextureResults 0) d resources block = (.ok (), a₀) ∧
      a₀.routines = a.routines ++ e₀.toList ∧ e₀.Belong d block ∧
      ∀ (V : Type) (before : Interpretation V), before.FoldsAnywhere →
        Forall₂ (Assembly.StoresAux (s.distributionEnv d resources) before a'.pool block)
          (Assembly.cachedAux s.options.numTextureResults 0 d.aux) (e.init.storeValues before) ∧
        ∀ after : Interpretation V, after.FoldsAnywhere →
          after.Settles before d (e.init.storeValues before) →
          ∀ r r₀, (r, r₀) ∈ [(e.sample, e₀.sample), (e.evaluate, e₀.evaluate), (e.pdf, e₀.pdf)] →
            ∃ x, r.resultValues after = [some x] ∧ r₀.resultValues after = [some x] := by
  obtain ⟨root, more, new, b, hroots, hentries, rfl⟩ := Assembly.addDistribution_eq_ok_iff.mp h
  obtain _ | @⟨_, _, _, _, _, init, routines, hlower, hrest⟩ := hentries
  obtain ⟨result, t, hrun, hinit, rfl⟩ := Assembly.lowerRoutine_eq_ok_iff.mp hlower
  -- the first entry point without texture results
  obtain ⟨result₀, t₀, hrun₀, _, hpool₀⟩ :=
    (Assembly.lowerEntry_init_repeats 0 root _ _ _ _ hrun).2 ⟨a.pool, #[], .none⟩ rfl
  obtain ⟨init₀, hinit₀⟩ : ∃ r, r = Assembly.finishRoutine (s.withTextureResults 0).options
      (Assembly.entryRoutine d block (.dfInit, "init")) result₀ t₀.body := ⟨_, rfl⟩
  have hdata : Assembly.HasAuxData (s.distributionEnv d resources) d (BlockBinding.source block)
      t.pool := by
    obtain ⟨aux, _, haux, hpure⟩ := exists_of_run_bind hrun
    cases hpure
    exact ⟨_, aux, _, haux, DataPool.Grows.refl _⟩
  -- the other entry points
  obtain ⟨routines₀, b₀, hrest₀, hroutines₀, hroutines, hgrows, hpairs⟩ :=
    Assembly.lowerEntries_pairs
      (b := { a with pool := t₀.pool, usage := a.usage.union t₀.usage }) hfast (by decide)
      hdata hpool₀ hrest
  have hentries₀ : Assembly.Lowers (s.withTextureResults 0).options
      (FunctionKind.distributionEntries.map (Assembly.entryJob
        ((s.distributionEnv d resources).withTextureResults 0) d root block)) a
      (init₀ :: routines₀) b₀ :=
    .cons (Assembly.lowerRoutine_eq_ok_iff.mpr ⟨result₀, t₀, hrun₀, hinit₀, rfl⟩) hrest₀
  obtain _ | ⟨hsample, _ | ⟨hevaluate, _ | ⟨hpdf, _ | _⟩⟩⟩ := hpairs
  rename_i sample sample₀ evaluate evaluate₀ pdf pdf₀
  refine ⟨⟨init, sample, evaluate, pdf⟩, ⟨init₀, sample₀, evaluate₀, pdf₀⟩,
    { b₀ with routines := b₀.routines ++ [init₀, sample₀, evaluate₀, pdf₀] },
    congrArg (· ++ _) hroutines,
    ⟨hinit ▸ Assembly.finishRoutine_header _ _ _ _ _ _, hsample.header, hevaluate.header,
      hpdf.header⟩, ?_, congrArg (· ++ _) hroutines₀,
    ⟨hinit₀ ▸ Assembly.finishRoutine_header _ _ _ _ _ _, hsample.plainHeader,
      hevaluate.plainHeader, hpdf.plainHeader⟩, ?_⟩
  · exact Assembly.addDistribution_eq_ok_iff.mpr ⟨root, more, _, b₀, hroots, hentries₀, rfl⟩
  · intro V before hbefore
    have hstored : ∀ I : Interpretation V, I.FoldsAnywhere →
        Forall₂ (Assembly.StoresAux (s.distributionEnv d resources) I b.pool block)
          (Assembly.cachedAux s.options.numTextureResults 0 d.aux) (init.storeValues I) := by
      intro I hI
      have hrun : (Assembly.lowerEntry ((s.distributionEnv d resources).withTextureResults
          s.options.numTextureResults) d root .dfInit (BlockBinding.source block)).run
          ⟨a.pool, #[], .none⟩ = (.ok result, t) := hrun
      rw [hinit]
      exact Assembly.init_stores hfast ordered_empty hrun hgrows hI
    refine ⟨hstored before hbefore, ?_⟩
    intro after hafter hsettles r r₀ hmem
    have hreads : ∀ i ∈ init.body, ∀ slot, i.op ≠ .textureResult slot := by
      rw [hinit]
      exact Assembly.init_reads_nothing hrun
    have hstores := hstored after hafter
    rw [Routine.storeValues_of_settles hsettles hreads] at hstores
    have hholds := Assembly.holdsCached_of_settles hsettles hstores
    have hself := DataPool.Grows.refl b.pool
    simp only [mem_cons, not_mem_nil, or_false, Prod.mk.injEq] at hmem
    rcases hmem with ⟨rfl, rfl⟩ | ⟨rfl, rfl⟩ | ⟨rfl, rfl⟩
    · exact hsample.alike V after b.pool hself hafter hholds
    · exact hevaluate.alike V after b.pool hself hafter hholds
    · exact hpdf.alike V after b.pool hself hafter hholds

/-- A distribution of two auxiliary fragments: the time, which fits into a texture result,
and the id of the object, which does not. -/
def pearl : Distribution where
  main := { Fragment.empty "pearl" .core with
    graph := ⟨#[⟨.lambdaResult 0, .float⟩, ⟨.lambdaResult 1, .int⟩,
      ⟨.call "df::diffuse_reflection_bsdf" [0, 1], .bsdf⟩]⟩
    roots := some (.single 2) }
  aux := [
    { Fragment.empty "pearl_0" .core with
      graph := ⟨#[⟨.call "state::animation_time" [], .float⟩]⟩
      roots := some (.single 0) },
    { Fragment.empty "pearl_1" .core with
      graph := ⟨#[⟨.call "state::object_id" [], .int⟩]⟩
      roots := some (.single 0) }]

/-- Settings with a slot for each auxiliary fragment of the distribution. -/
def pearlSettings : AssemblySettings where
  options := { Options.default with fastMath := false, numTextureResults := 2 }
  resolver := Library.empty
  useRoSegment := true
  rules := .scalar

/-- The machine with texture results, on which a call of the runtime is a value made of its
arguments. -/
def Datum.texturing (time : Float32) (results : Nat → Datum) : Interpretation Datum
  | _, .textureResult slot, [] => results slot
  | _, .runtimeCall _, values => .parts values
  | t, o, values => Datum.machine time t o values

theorem Datum.texturing_foldsAnywhere (time : Float32) (results : Nat → Datum) :
    (Datum.texturing time results).FoldsAnywhere := by
  have hmachine : ∀ t o vs, o.isInternal → texturing time results t o vs = machine time t o vs := by
    intro t o vs ho
    cases o <;> first | rfl | cases ho
  exact foldsAnywhere_of_machine hmachine

/-- What becomes of the assembly when the distribution is added. -/
def pearlAdded : Except LowerFailure Unit × Assembly :=
  (Assembly.empty pearlSettings.options).addDistribution pearlSettings pearl OrderedMap.empty none

theorem pearlAdded_ok : (Assembly.empty pearlSettings.options).addDistribution pearlSettings pearl
    OrderedMap.empty none = (.ok (), pearlAdded.2) := by
  have hok : pearlAdded.1 = .ok () := by cbv
  exact Prod.ext hok rfl

theorem pearlAdded_init : pearlAdded.2.routines.head?.map (fun r => (r.stores, r.body)) =
    some ([(0, 0)], #[⟨.float, .state .animationTime⟩]) := by
  cbv

theorem texture_results_are_transparent_pearl :
    ∃ (e e₀ : Distribution.EntryPoints) (a₀ : Assembly),
      pearlAdded.2.routines = e.toList ∧ e.Belong pearl none ∧
      (Assembly.empty pearlSettings.options).addDistribution (pearlSettings.withTextureResults 0)
        pearl OrderedMap.empty none = (.ok (), a₀) ∧
      a₀.routines = e₀.toList ∧ e₀.Belong pearl none ∧
      e.init.storeValues (Datum.texturing 0.5 fun _ => .unknown) =
        [(0, some (.literal (.float 0.5)))] ∧
      ∀ r r₀, (r, r₀) ∈ [(e.sample, e₀.sample), (e.evaluate, e₀.evaluate), (e.pdf, e₀.pdf)] →
        ∃ x, r.resultValues (Datum.texturing 0.5 fun _ => .literal (.float 0.5)) = [some x] ∧
          r₀.resultValues (Datum.texturing 0.5 fun _ => .literal (.float 0.5)) = [some x] := by
  obtain ⟨e, e₀, a₀, hroutines, hbelong, hplain, hroutines₀, hbelong₀, hvalues⟩ :=
    texture_results_are_transparent rfl pearlAdded_ok
  have hinit := pearlAdded_init
  rw [hroutines] at hinit
  obtain ⟨hstores, hbody⟩ := Prod.mk.inj (Option.some.inj hinit)
  have hstored : e.init.storeValues (Datum.texturing 0.5 fun _ => .unknown) =
      [(0, some (.literal (.float 0.5)))] := by
    unfold Routine.storeValues
    rw [hstores, hbody, map_singleton, valueAt]
    rfl
  obtain ⟨_, hreturns⟩ := hvalues Datum _ (Datum.texturing_foldsAnywhere 0.5 fun _ => .unknown)
  refine ⟨e, e₀, a₀, hroutines, hbelong, hplain, hroutines₀, hbelong₀, hstored, ?_⟩
  refine hreturns _ (Datum.texturing_foldsAnywhere 0.5 _) ⟨?_, ?_⟩
  · intro t o vs ho
    cases o with
    | textureResult slot => exact absurd rfl (ho slot)
    | _ => rfl
  · intro slot x f t hx _ _
    rw [hstored, mem_singleton] at hx
    cases hx
    rfl

end Shading
