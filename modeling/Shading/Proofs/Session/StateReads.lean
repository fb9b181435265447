import Shading.Proofs.Session.Origin
import Shading.Proofs.Session.Sharing

/-!
# The state that artifacts ask for

An artifact tells which parts of the shading state its code reads, and a renderer may leave out
the others.  The flags come from the same compile as the code, also if the code was kept in a
cache, and cover every read of every function.  They are those that the items of the compile
noted; a request that failed notes nothing.

A function reads only what its own context offers, whatever fragments it calls.

Main definitions:

- `Routine.Reads` says that a function reads a part of the state.
- `Compilation.noted` is the set of flags that an item notes.
- `LinkUnit.Grants` says that a unit adds what is asked for.
- `Artifact.Covers` says that the code of an artifact is that of a compile, and that its flags
  cover what the functions read.

Main results:

- `Compilation.compile_accounted`: the functions that an item adds are accounted for.
- `Compilation.compile_usage`: the flags that an item adds are those that it notes.
- `LinkUnit.usage_after_requests`: the flags of a unit are those that granted requests noted.
- `state_usage_is_sound`: the flags of artifacts.
- `contexts_are_respected`: what the functions of an item do not read.
-/

namespace Shading

open List

variable {usage : StateUsage} {r : Routine} {flag : StateFlag} {u : LinkUnit} {c d : Compilation}
  {cache : Cache Digest CachedCode}

/-- A function reads a part of the state: with one of its instructions, or it stores texture
results. -/
def Routine.Reads (r : Routine) (flag : StateFlag) : Prop :=
  (∃ i ∈ r.body, i.op.flag? = some flag) ∨ flag = .textureResults ∧ r.stores ≠ []

theorem Routine.Accounted.has (h : r.Accounted usage) (hreads : r.Reads flag) :
    usage.has flag = true := by
  rcases hreads with ⟨i, hi, hflag⟩ | ⟨rfl, hstores⟩
  · exact (h.instrs i hi flag hflag).1
  · exact h.stores hstores

/-! ## Flags that were noted before -/

namespace Assembly

/-- The program with further flags noted. -/
def noting (a : Assembly) (u : StateUsage) : Assembly :=
  { a with usage := u.union a.usage }

theorem lowerRoutine_noting (a : Assembly) (u : StateUsage) (o : Options) (r : Routine)
    (lower : LowerM RoutineResult) :
    (a.noting u).lowerRoutine o r lower =
      ((a.lowerRoutine o r lower).1, (a.lowerRoutine o r lower).2.noting u) := by
  unfold lowerRoutine noting
  dsimp only
  split
  · rfl
  · dsimp only
    rw [StateUsage.union_assoc]

theorem lowerJobs_noting (a : Assembly) (u : StateUsage) (o : Options) (jobs : List Job) :
    lowerJobs o jobs (a.noting u)
      = ((lowerJobs o jobs a).1, (lowerJobs o jobs a).2.noting u) := by
  induction jobs generalizing a with
  | nil => rfl
  | cons job rest ih =>
    rw [lowerJobs, lowerJobs, lowerRoutine_noting]
    rcases a.lowerRoutine o job.header job.code with ⟨e | r, b⟩
    · rfl
    · dsimp only
      rw [ih]
      rcases lowerJobs o rest b with ⟨e | routines, c⟩ <;> rfl

/-- Flags that were noted before make no difference to what is added. -/
theorem addJobs_noting (a : Assembly) (u : StateUsage) (o : Options)
    (jobs : Except LowerFailure (List Job)) :
    (a.noting u).addJobs o jobs = ((a.addJobs o jobs).1, (a.addJobs o jobs).2.noting u) := by
  cases jobs with
  | error e => rfl
  | ok jobs =>
    unfold addJobs
    dsimp only
    rw [lowerJobs_noting]
    rcases lowerJobs o jobs a with ⟨e | routines, b⟩ <;> rfl

end Assembly

namespace Compilation

variable {c d : Compilation} {s : Surroundings} {item : Compilable} {index : Option Nat}

/-! ## Items -/

/-- The functions that an item adds have its context and are accounted for. -/
theorem compile_accounted (h : c.compile s item = (.ok index, d)) :
    ∃ new, d.assembly.routines = c.assembly.routines ++ new ∧
      (∀ r ∈ new, r.context = item.main.context ∧ r.Accounted d.assembly.usage) ∧
      ∀ flag, c.assembly.usage.has flag = true → d.assembly.usage.has flag = true := by
  obtain ⟨layout, a, -, -, hlower, rfl⟩ := compile_eq_ok_iff.mp h
  obtain ⟨new, pool, usage, rfl, hadds⟩ :=
    lowerLaidOut_adds (fun f _ => supplied_source f.graph _) hlower
  refine ⟨new, rfl, fun r hr => ⟨?_, hadds.accounted r hr⟩, hadds.usage⟩
  rw [hadds.context r hr, Compilable.lowerEnv_context]

/-- All functions of a compile are accounted for. -/
def Accounted (c : Compilation) : Prop :=
  ∀ r ∈ c.assembly.routines, r.Accounted c.assembly.usage

theorem Agrees.accounted (h : c.Agrees d) (hc : c.Accounted) : d.Accounted := by
  unfold Agrees at h
  rw [← h]
  exact hc

theorem Accounted.compile (hc : c.Accounted) (h : c.compile s item = (.ok index, d)) :
    d.Accounted := by
  obtain ⟨new, hroutines, hnew, husage⟩ := compile_accounted h
  intro r hr
  rw [hroutines] at hr
  rcases mem_append.mp hr with hr | hr
  · exact (hc r hr).mono husage
  · exact (hnew r hr).2

/-! ## What an item notes -/

/-- The compile with further flags noted. -/
def noting (c : Compilation) (u : StateUsage) : Compilation :=
  { c with assembly := c.assembly.noting u }

theorem lowerLaidOut_noting (c : Compilation) (u : StateUsage) (s : Surroundings)
    (item : Compilable) (resources : ResourceMap) (layout : Option Layout) :
    (c.noting u).lowerLaidOut s item resources layout =
      ((c.lowerLaidOut s item resources layout).1,
        (c.lowerLaidOut s item resources layout).2.noting u) := by
  have hblock : (c.noting u).declareBlock item layout =
      ((c.declareBlock item layout).1, (c.declareBlock item layout).2.noting u) := by
    cases layout <;> rfl
  unfold lowerLaidOut
  rw [hblock]
  exact Assembly.addJobs_noting _ u c.options _

/-- Flags that were noted before make no difference to what an item does. -/
theorem compile_noting (c : Compilation) (u : StateUsage) (s : Surroundings) (item : Compilable) :
    (c.noting u).compile s item = ((c.compile s item).1, (c.compile s item).2.noting u) := by
  have hlayout : (c.noting u).parameterLayout item = c.parameterLayout item := rfl
  have htables : (c.noting u).tables = c.tables := rfl
  unfold compile
  rw [hlayout, htables]
  cases c.parameterLayout item with
  | error e => rfl
  | ok layout =>
    dsimp only
    rw [lowerLaidOut_noting]
    rcases c.lowerLaidOut s item _ layout with ⟨_ | _, a⟩ <;> rfl

/-- The flags that an item notes: those of a compile that goes on from here without any flags. -/
def noted (c : Compilation) (s : Surroundings) (item : Compilable) : StateUsage :=
  (compile { c with assembly := { c.assembly with usage := .none } } s item).2.assembly.usage

/-- The flags that an item adds are those that it notes. -/
theorem compile_usage (h : c.compile s item = (.ok index, d)) :
    d.assembly.usage = c.assembly.usage.union (c.noted s item) := by
  let blank : Compilation := { c with assembly := { c.assembly with usage := .none } }
  have hc : c = blank.noting c.assembly.usage := by
    unfold noting Assembly.noting
    rw [StateUsage.union_none]
  have hcompile := compile_noting blank c.assembly.usage s item
  rw [← hc, h] at hcompile
  exact congrArg (fun p => p.2.assembly.usage) hcompile

end Compilation

/-- All functions of the compiles that a backend comes to are accounted for. -/
theorem Backend.Builds.accounted {b : Backend} {c : Compilation} (h : b.Builds c) : c.Accounted :=
  h.induction (fun _ _ hr => absurd hr not_mem_nil) (fun hagrees hc => hagrees.accounted hc)
    fun hc _ hitem => hc.compile hitem

/-! ## Units -/

namespace LinkUnit

/-- A unit grants a request: it is open, and adds the item that is asked for. -/
structure Grants (u : LinkUnit) (s : Surroundings) (q : UnitRequest) (c : Compilation)
    (item : Compilable) : Prop where
  compilation : u.compilation = some c
  build : q.build s.library c.options = .ok item
  added : ∃ index v, u.request s q = (.ok index, v)

/-- A flag is noted by a run of requests: one of them is granted, and its item notes the flag. -/
def Notes (u : LinkUnit) (requests : List (Surroundings × UnitRequest)) (flag : StateFlag) : Prop :=
  ∃ before s q later c item, requests = before ++ (s, q) :: later ∧
    (u.serve before).Grants s q c item ∧ (c.noted s item).has flag = true

theorem notes_cons_iff {r : Surroundings × UnitRequest} {rest : List (Surroundings × UnitRequest)} :
    u.Notes (r :: rest) flag ↔
      (∃ c item, u.Grants r.1 r.2 c item ∧ (c.noted r.1 item).has flag = true) ∨
        (u.request r.1 r.2).2.Notes rest flag := by
  constructor
  · rintro ⟨before, s, q, later, c, item, hsplit, hgrants, hflag⟩
    cases before with
    | nil =>
      cases hsplit
      exact .inl ⟨c, item, hgrants, hflag⟩
    | cons first before =>
      cases hsplit
      exact .inr ⟨before, s, q, later, c, item, rfl, hgrants, hflag⟩
  · rintro (⟨c, item, hgrants, hflag⟩ | ⟨before, s, q, later, c, item, rfl, hgrants, hflag⟩)
    · exact ⟨[], r.1, r.2, rest, c, item, rfl, hgrants, hflag⟩
    · exact ⟨r :: before, s, q, later, c, item, rfl, hgrants, hflag⟩

/-- A failed request notes nothing, and a granted one what its item notes. -/
theorem usage_after_request (hu : u.compilation = some c) (hc : c.Balanced)
    (r : Surroundings × UnitRequest) (hd : (u.request r.1 r.2).2.compilation = some d)
    (flag : StateFlag) :
    d.assembly.usage.has flag = true ↔ c.assembly.usage.has flag = true ∨
      ∃ c item, u.Grants r.1 r.2 c item ∧ (c.noted r.1 item).has flag = true := by
  rcases hr : u.request r.1 r.2 with ⟨e | index, v⟩
  · obtain ⟨d', hd', hagrees, -⟩ := request_error hu hc hr
    have hnone : ¬ ∃ c item, u.Grants r.1 r.2 c item ∧ (c.noted r.1 item).has flag = true := by
      rintro ⟨c', item, ⟨-, -, index, v', hadded⟩, -⟩
      rw [hr] at hadded
      cases hadded
    rw [hr] at hd
    cases hd'.symm.trans hd
    unfold Compilation.Agrees at hagrees
    rw [← hagrees]
    exact (or_iff_left hnone).symm
  · obtain ⟨d', item, hd', hbuild, hadd⟩ := request_ok hu hr
    rw [hr] at hd
    cases hd'.symm.trans hd
    have husage := Compilation.compile_usage (Compilation.add_eq_ok_iff.mp hadd).2
    rw [husage, StateUsage.has_union, Bool.or_eq_true]
    refine or_congr Iff.rfl ⟨fun hflag => ⟨c, item, ⟨hu, hbuild, index, v, hr⟩, hflag⟩, ?_⟩
    rintro ⟨c', item', ⟨hu', hbuild', -⟩, hflag⟩
    cases hu.symm.trans hu'
    cases hbuild.symm.trans hbuild'
    exact hflag

/-- The flags of a unit after requests are those that granted requests noted. -/
theorem usage_after_requests (hu : u.compilation = some c) (hc : c.Balanced)
    (requests : List (Surroundings × UnitRequest)) (hd : (u.serve requests).compilation = some d)
    (flag : StateFlag) :
    d.assembly.usage.has flag = true ↔
      c.assembly.usage.has flag = true ∨ u.Notes requests flag := by
  induction requests generalizing u c with
  | nil =>
    cases hu.symm.trans hd
    refine (or_iff_left ?_).symm
    rintro ⟨before, s, q, later, c, item, hsplit, -⟩
    exact absurd hsplit.symm (append_ne_nil_of_right_ne_nil _ (cons_ne_nil _ _))
  | cons r rest ih =>
    obtain ⟨c₁, hc₁⟩ : ∃ c₁, (u.request r.1 r.2).2.compilation = some c₁ := by
      rcases hr : u.request r.1 r.2 with ⟨e | index, v⟩
      · obtain ⟨d', hd', -⟩ := request_error hu hc hr
        exact ⟨d', hd'⟩
      · obtain ⟨d', -, hd', -⟩ := request_ok hu hr
        exact ⟨d', hd'⟩
    obtain ⟨-, hbalanced⟩ := serve_grows hu hc [r] hc₁
    rw [ih hc₁ hbalanced hd, usage_after_request hu hc r hc₁ flag, notes_cons_iff, or_assoc]

end LinkUnit

/-! ## Artifacts -/

/-- The code of an artifact is that of a compile, and its flags are those of the compile and cover
what the functions read. -/
structure Artifact.Covers (a : Artifact) (c : Compilation) : Prop where
  code : ∃ code : Emitted,
    c.assembly.finish.emit c.target c.options.outputFormat = .ok code ∧ a.body = code.body
  usage : a.stateUsage = c.assembly.finish.stateUsage
  reads : ∀ r ∈ c.assembly.finish.routines, ∀ flag, r.Reads flag → a.stateUsage.has flag = true

theorem Compilation.Accounted.covers [ShaderCheck] (hc : c.Accounted) {a : Artifact}
    (h : c.finish = .ok a) : a.Covers c := by
  obtain ⟨-, code, hemit, rfl⟩ := finish_eq_ok h
  exact ⟨⟨code, hemit, rfl⟩, rfl, fun r hr flag hreads => (hc r hr).has hreads⟩

namespace SharedCall

/-- The surroundings of a call. -/
def surroundings (call : SharedCall) : Surroundings :=
  ⟨call.call.store, call.library⟩

/-- The compile that a call starts. -/
def start (call : SharedCall) : Compilation :=
  .start call.call.backend.target call.call.backend.options false

/-- The code and the flags of an answer are those of one compile, of the call itself or of an
earlier one. -/
theorem exists_covers [ShaderCheck] {call : SharedCall} {earlier : List SharedCall}
    (hcache : Genuine earlier cache) {a : Artifact} (h : (call.answer cache).1 = .ok a) :
    ∃ call' ∈ call :: earlier, ∃ item index c, call'.item = .ok item ∧
      call'.start.add call'.surroundings item = (.ok index, c) ∧ a.Covers c := by
  have hcompiled : ∀ {call : SharedCall} {item : Compilable} {a : Artifact},
      call.compiled item = .ok a → ∃ index c,
        call.start.add call.surroundings item = (.ok index, c) ∧ a.Covers c := by
    intro call item a ha
    obtain ⟨index, c, hadd, hfinish⟩ := Call.add_of_compiled ha
    have hbuilds : call.call.backend.Builds c := .item hadd
    exact ⟨index, c, hadd, hbuilds.accounted.covers hfinish⟩
  unfold answer at h
  obtain ⟨item, hitem, ha | ⟨-, hit, hfind, rfl⟩⟩ := Call.answer_eq_ok h
  · obtain ⟨index, c, hadd, hcovers⟩ := hcompiled ha
    exact ⟨call, mem_cons_self, item, index, c, hitem, hadd, hcovers⟩
  · -- The entry has the code and the flags of one artifact, whatever its key stands for.
    obtain ⟨call', hcall', -, item', a', hitem', -, ha', rfl⟩ := hcache _ (Cache.mem_of_find? hfind)
    obtain ⟨index, c, hadd, hcovers⟩ := hcompiled ha'
    exact ⟨call', mem_cons_of_mem _ hcall', item', index, c, hitem', hadd,
      hcovers.code, hcovers.usage, hcovers.reads⟩

end SharedCall

/-- The flags of artifacts are sound.  A unit that is closed after any requests hands out the code
of its compile with flags that cover all reads of all functions; a flag is set exactly if a request
that was granted noted it, so what only failed requests read is not set.  A session that answers a
call, maybe with code that a call of another session left in the cache, hands out code and flags
of one compile of a single item, of this call or of an earlier one. -/
theorem state_usage_is_sound [ShaderCheck] :
    (∀ (b closer : Backend) (requests : List (Surroundings × UnitRequest)) (a : Artifact)
        (closed : LinkUnit),
      closer.closeUnit ((LinkUnit.create b).serve requests) = (.ok a, closed) →
      (∃ c, ((LinkUnit.create b).serve requests).compilation = some c ∧ a.Covers c) ∧
        ∀ flag, a.stateUsage.has flag = true ↔ (LinkUnit.create b).Notes requests flag) ∧
    ∀ (cache : Cache Digest CachedCode) (calls : List SharedCall) (n : Nat) (a : Artifact),
      cache.entries = [] → (SharedCall.answers cache calls)[n]? = some (.ok a) →
      ∃ call ∈ calls.take (n + 1), ∃ item index c, call.item = .ok item ∧
        call.start.add call.surroundings item = (.ok index, c) ∧ a.Covers c := by
  constructor
  · intro b closer requests a closed hclose
    obtain ⟨c, hopen, hfinish⟩ := Backend.finish_of_closeUnit hclose
    have hbuilds : b.Builds c := .unit hopen
    have hcovers := hbuilds.accounted.covers hfinish
    refine ⟨⟨c, hopen, hcovers⟩, fun flag => ?_⟩
    have husage := LinkUnit.usage_after_requests rfl (Compilation.start_balanced _ _ _) requests
      hopen flag
    rw [hcovers.usage]
    refine husage.trans (or_iff_right ?_)
    exact fun hnone => Bool.false_ne_true ((StateUsage.has_none flag).symm.trans hnone)
  · intro cache calls n a hempty hanswer
    obtain ⟨call, cache', hcall, hcache', ha⟩ :=
      SharedCall.exists_answer (@SharedCall.genuine_of_empty _ [] _ hempty) hanswer
    obtain ⟨call', hcall', item, index, c, hitem, hadd, hcovers⟩ :=
      SharedCall.exists_covers hcache' ha
    refine ⟨call', ?_, item, index, c, hitem, hadd, hcovers⟩
    rw [take_add_one, hcall]
    rcases mem_cons.mp hcall' with rfl | hcall'
    · exact mem_append_right _ (mem_singleton_self _)
    · exact mem_append_left _ hcall'

/-- A function whose result is the time. -/
def clock : Fragment :=
  { Fragment.empty "clock" .core with
    graph := ⟨#[⟨.call "state::animation_time" [], .float⟩]⟩
    roots := some (.single 0) }

/-- A switch whose first root is the normal and whose second one reads a parameter that nobody
sets: it fails after the normal was noted. -/
def slope : Fragment :=
  { Fragment.empty "slope" .core with
    graph := ⟨#[⟨.call "state::normal" [], .vector .float 3⟩, ⟨.parameter 0, .float⟩]⟩
    roots := some (.multiRoot [0, 1]) }

/-- Code for the host, with no pass over it. -/
def unoptimizedHost : Backend :=
  ⟨.native, unoptimized, true⟩

/-- A call for the time. -/
def clockCall : SharedCall :=
  ⟨.empty, .empty, unoptimizedHost, .unit (.fragment clock)⟩

/-- A unit asks for the time, and not for the normal, which only a failed request reads.  The second
of two calls, which finds the code of the first one, asks for the time as well. -/
theorem state_usage_is_sound_clock :
    (∃ a closed, unoptimizedHost.closeUnit ((LinkUnit.create unoptimizedHost).serve
        [(oneTexture, .fragment clock), (oneTexture, .fragment slope)]) = (.ok a, closed) ∧
      a.stateUsage.has .animationTime = true ∧ a.stateUsage.has .normal = false ∧
      (LinkUnit.create unoptimizedHost).Notes
        [(oneTexture, .fragment clock), (oneTexture, .fragment slope)] .animationTime ∧
      ¬ (LinkUnit.create unoptimizedHost).Notes
        [(oneTexture, .fragment clock), (oneTexture, .fragment slope)] .normal) ∧
    ∃ a, (SharedCall.answers .unbounded [clockCall, clockCall])[1]? = some (.ok a) ∧
      a.stateUsage.has .animationTime = true ∧
      ∃ call ∈ [clockCall, clockCall], ∃ item index c, call.item = .ok item ∧
        call.start.add call.surroundings item = (.ok index, c) ∧ a.Covers c := by
  constructor
  · have hclosed : (unoptimizedHost.closeUnit ((LinkUnit.create unoptimizedHost).serve
        [(oneTexture, .fragment clock)])).1.map (·.stateUsage) = .ok ⟨16⟩ := by
      cbv
    have hfails : (((LinkUnit.create unoptimizedHost).serve [(oneTexture, .fragment clock)]).request
        oneTexture (.fragment slope)).1 = .error (.backendFailure "slope") := by
      change (((Compilation.start .native unoptimized true).add oneTexture
        (.function clock .lambda)).2.add oneTexture (.function slope .switchLambda)).1 = _
      rw [Compilation.add_fst]
      cbv
    -- The failed request leaves a unit that is closed with the same flags.
    have hbalanced : ∀ c, ((LinkUnit.create unoptimizedHost).serve
        [(oneTexture, .fragment clock)]).compilation = some c → c.Balanced := fun c hc =>
      (LinkUnit.serve_grows rfl (Compilation.start_balanced _ _ _) _ hc).2
    have hagrees : OutcomesAgree (unoptimizedHost.closeUnit ((LinkUnit.create unoptimizedHost).serve
        [(oneTexture, .fragment clock), (oneTexture, .fragment slope)])).1 _ :=
      (LinkUnit.request_error_agrees hbalanced (Prod.ext hfails rfl)).closeUnit unoptimizedHost
    obtain ⟨a₁, ha₁, husage⟩ := exists_of_bind_eq_ok hclosed
    rw [ha₁] at hagrees
    rcases hboth : unoptimizedHost.closeUnit ((LinkUnit.create unoptimizedHost).serve
      [(oneTexture, .fragment clock), (oneTexture, .fragment slope)]) with ⟨e | a, closed⟩
    · rw [hboth] at hagrees
      cases hagrees
    · rw [hboth] at hagrees
      have husage : a.stateUsage = ⟨16⟩ :=
        (congrArg (·.stateUsage) hagrees).trans (Except.ok.inj husage)
      have hnotes := (state_usage_is_sound.1 _ _ _ a closed hboth).2
      have htime : a.stateUsage.has .animationTime = true := by
        rw [husage]
        rfl
      have hnormal : a.stateUsage.has .normal = false := by
        rw [husage]
        rfl
      refine ⟨a, closed, rfl, htime, hnormal, (hnotes _).mp htime, fun h => ?_⟩
      exact Bool.false_ne_true (hnormal.symm.trans ((hnotes _).mpr h))
  · have hcompiled : (clockCall.compiled (.function clock .lambda)).map (·.stateUsage)
        = .ok ⟨16⟩ := by
      cbv
    obtain ⟨a, ha, husage⟩ := exists_of_bind_eq_ok hcompiled
    have hitem : clockCall.item = .ok (.function clock .lambda) := rfl
    obtain ⟨hfirst, a', ha', -, hsame⟩ := SharedCall.exists_hit hitem hitem rfl rfl rfl ha
    have hanswer : (SharedCall.answers .unbounded [clockCall, clockCall])[1]? = some (.ok a') := by
      rw [SharedCall.answers, SharedCall.answers, ha']
      rfl
    have husage : a.stateUsage = ⟨16⟩ := Except.ok.inj husage
    refine ⟨a', hanswer, ?_, state_usage_is_sound.2 _ _ 1 a' rfl hanswer⟩
    rw [hsame, husage]
    rfl

/-! ## Contexts -/

/-- A function contains only what its context and its kind allow: an environment function reads
nothing that belongs to an object, any other one no direction, and what is compiled as an
environment function has no arguments. -/
structure Routine.InContext (r : Routine) : Prop where
  object : r.context = .environment → ∀ i ∈ r.body,
    i.op ≠ .state .normal ∧ i.op ≠ .state .position ∧ i.op ≠ .state .objectId ∧
      (∀ n, i.op ≠ .textureCoordinate n) ∧
      ∀ name args, i.op = .runtimeCall name args → name ∉ objectTransforms
  direction : r.context ≠ .environment → ∀ i ∈ r.body, i.op ≠ .state .direction
  arguments : r.kind = .environment → r.argBlock = none ∧
    ∀ i ∈ r.body, ∀ block offset, i.op ≠ .argLoad block offset

/-- What an instruction that is accounted for reads is offered by the context. -/
theorem Routine.Accounted.offers (h : r.Accounted usage) {i : Instr} (hi : i ∈ r.body) {op : Op}
    (hop : i.op = op) (hflag : op.flag? = some flag) : r.context.Offers flag :=
  (h.instrs i hi flag (hop ▸ hflag)).2

theorem Routine.Accounted.inContext (h : r.Accounted usage)
    (harguments : r.kind = .environment → r.argBlock = none ∧
      ∀ i ∈ r.body, ∀ block offset, i.op ≠ .argLoad block offset) : r.InContext where
  object hcontext _ hi :=
    ⟨fun hop => h.offers hi hop rfl hcontext, fun hop => h.offers hi hop rfl hcontext,
      fun hop => h.offers hi hop rfl hcontext, fun _ hop => h.offers hi hop rfl hcontext,
      fun _ _ hop hname => h.offers hi hop (if_pos hname) hcontext⟩
  direction hcontext _ hi hop := hcontext (h.offers hi hop rfl)
  arguments := harguments

/-- An environment function is compiled without an argument block, and loads nothing from one. -/
theorem Compilation.compile_environment {s : Surroundings} {f : Fragment} {index : Option Nat}
    (hrefusal : c.refusal? (.function f .environment) = none)
    (h : c.compile s (.function f .environment) = (.ok index, d)) :
    index = none ∧ ∃ new, d.assembly.routines = c.assembly.routines ++ new ∧ ∀ r ∈ new,
      r.argBlock = none ∧ ∀ i ∈ r.body, ∀ block offset, i.op ≠ .argLoad block offset := by
  obtain ⟨layout, a, hlayout, rfl, hlower, rfl⟩ := compile_eq_ok_iff.mp h
  obtain rfl : layout = none := by
    have hnone : f.capturesParameters = false := by
      unfold Fragment.capturesParameters
      rw [parameters_of_environment hrefusal]
      rfl
    unfold parameterLayout at hlayout
    rw [show (Compilable.function f .environment).main.capturesParameters = false from hnone]
      at hlayout
    exact (Except.ok.inj hlayout).symm
  -- Without a block no parameter can be read, so the loads that are allowed may be none at all.
  obtain ⟨new, pool, usage, rfl, hadds⟩ :=
    @lowerLaidOut_adds c _ none (fun _ _ _ => False) _ _ _ (fun _ _ _ => trivial) hlower
  refine ⟨rfl, new, rfl, fun r hr => ⟨hadds.argBlock r hr, fun i hi block offset hop => ?_⟩⟩
  have hadmissible := (hadds.sound r hr).instrs i hi
  rw [Admissible, hop] at hadmissible
  exact hadmissible

/-- Contexts are respected: the functions of an item that is added to any compile have the context
of the item and contain only what it allows, whatever fragments of other contexts they call.  What
is compiled as an environment function gets no argument block. -/
theorem contexts_are_respected {c d : Compilation} {s : Surroundings} {item : Compilable}
    {index : Option Nat} (h : c.add s item = (.ok index, d)) :
    ∃ new, d.assembly.routines = c.assembly.routines ++ new ∧
      new.map (fun r => (r.name, r.kind)) = item.entries ∧
      (∀ r ∈ new, r.context = item.main.context ∧ r.InContext) ∧
      ((∃ r ∈ new, r.kind = .environment) → index = none) := by
  obtain ⟨hrefusal, hcompile⟩ := Compilation.add_eq_ok_iff.mp h
  obtain ⟨new, hroutines, hnew, -⟩ := Compilation.compile_accounted hcompile
  obtain ⟨layout, -, hextended⟩ := Compilation.compile_extended hcompile
  have hentries : new.map (fun r => (r.name, r.kind)) = item.entries := by
    obtain ⟨new', hroutines', hrows⟩ := hextended.routines
    cases append_cancel_left (hroutines.symm.trans hroutines')
    have hrows := congrArg (List.map fun f : FunctionRow => (f.name, f.kind)) hrows
    unfold Compilable.rows at hrows
    rw [map_map, map_map] at hrows
    exact hrows.trans (map_id _)
  have henvironment : ∀ r ∈ new, r.kind = .environment → index = none ∧ r.argBlock = none ∧
      ∀ i ∈ r.body, ∀ block offset, i.op ≠ .argLoad block offset := by
    intro r hr hkind
    have hmem : (r.name, r.kind) ∈ item.entries := by
      rw [← hentries]
      exact mem_map_of_mem hr
    cases item with
    | function f kind =>
      obtain ⟨-, hkind'⟩ := Prod.mk.inj (mem_singleton.mp hmem)
      obtain rfl : kind = .environment := hkind'.symm.trans hkind
      obtain ⟨hindex, new', hroutines', harguments⟩ :=
        Compilation.compile_environment hrefusal hcompile
      cases append_cancel_left (hroutines.symm.trans hroutines')
      exact ⟨hindex, harguments r hr⟩
    | distribution d =>
      obtain ⟨entry, hentry, heq⟩ := mem_map.mp hmem
      have hkind' : entry.1 = .environment := (Prod.mk.inj heq).2.trans hkind
      have hnone : ∀ entry ∈ FunctionKind.distributionEntries, entry.1 ≠ .environment := by decide
      exact absurd hkind' (hnone entry hentry)
  refine ⟨new, hroutines, hentries, fun r hr => ⟨(hnew r hr).1, ?_⟩, ?_⟩
  · exact (hnew r hr).2.inContext fun hkind => (henvironment r hr hkind).2
  · rintro ⟨r, hr, hkind⟩
    exact (henvironment r hr hkind).1

/-- A function that was declared for surfaces, and still reads the direction. -/
def halo : Fragment :=
  { Fragment.empty "halo" .core with
    graph := ⟨#[⟨.call "state::direction" [], .vector .float 3⟩]⟩
    roots := some (.single 0) }

/-- An environment function that calls it. -/
def sky : Fragment :=
  { Fragment.empty "sky" .environment with
    graph := ⟨#[⟨.call "halo" [], .vector .float 3⟩]⟩
    roots := some (.single 0) }

/-- Surroundings with the function that is called. -/
def skyline : Surroundings :=
  ⟨.empty, .insert .empty "halo" halo⟩

/-- In the environment function, the direction may be read by a function that was declared for
surfaces. -/
theorem contexts_are_respected_sky :
    ∃ d, (Compilation.start .native unoptimized false).add skyline (.function sky .environment)
        = (.ok none, d) ∧
      d.assembly.routines.map (·.body) = [#[⟨.vector .float 3, .state .direction⟩]] ∧
      ∃ new, d.assembly.routines = [] ++ new ∧
        new.map (fun r => (r.name, r.kind)) = [("sky", .environment)] ∧
        ∀ r ∈ new, r.context = .environment ∧ r.InContext := by
  have hindex : ((Compilation.start .native unoptimized false).add skyline
      (.function sky .environment)).1 = .ok none := by
    rw [Compilation.add_fst]
    cbv
  have hbody : ((Compilation.start .native unoptimized false).add skyline
      (.function sky .environment)).2.assembly.routines.map (·.body)
        = [#[⟨.vector .float 3, .state .direction⟩]] := by
    cbv
  have hadd : (Compilation.start .native unoptimized false).add skyline
      (.function sky .environment) = (.ok none, _) := Prod.ext hindex rfl
  obtain ⟨new, hroutines, hentries, hcontext, -⟩ := contexts_are_respected hadd
  exact ⟨_, hadd, hbody, new, hroutines, hentries, hcontext⟩

end Shading
