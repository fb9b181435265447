import Shading.Proofs.Session.Rows
import Shading.Proofs.Session.Transparency

/-!
# Where the code of an artifact comes from

An artifact is handed out for a unit that is closed, or as the answer to a call.  Its code is then
generated by the compile of the unit or of the item that was called for, or it was generated by the
compile of an earlier item of the same key and kept in the cache.  Either way the compile has the
target of the backend, and options that give the same code.

Main definitions:

- `HandedOut` says that a backend hands out an artifact.
- `Backend.Builds` tells which compiles a backend comes to, and `Backend.Includes` which items are
  part of them.
- `Generated` says that the code of an artifact was generated by a compile.

Main results:

- `Backend.Builds.induction`: invariants of the compiles of a backend.
- `Backend.Builds.settled`: the settings and the data of the compiles of a backend.
- `HandedOut.exists_generated`: the code of every artifact was generated by a compile.
- `Generated.exists_emitted`: the code is what the program of the compile is emitted as.
-/

namespace Shading

open List

variable {s : Surroundings} {item : Compilable} {c : Compilation} {b : Backend} {a : Artifact}

/-! ## Compiles -/

/-- What a compile keeps: the settings of its backend, and data that was added to an empty pool. -/
structure Compilation.Settled (c : Compilation) (b : Backend) : Prop where
  target : c.target = b.target
  options : c.options = b.options
  pool : DataPool.empty.Reaches c.assembly.pool

/-- The compiles that a backend comes to: a unit after requests, failed ones among them, or an
item that was compiled by itself. -/
inductive Backend.Builds (b : Backend) (c : Compilation) : Prop
  | unit {requests : List (Surroundings × UnitRequest)}
      (hserve : ((LinkUnit.create b).serve requests).compilation = some c) : b.Builds c
  | item {s : Surroundings} {item : Compilable} {index : Option Nat}
      (hadd : (Compilation.start b.target b.options false).add s item = (.ok index, c)) : b.Builds c

namespace Compilation

variable {c d : Compilation} {b : Backend}

theorem start_settled (b : Backend) (linkUnit : Bool) :
    (start b.target b.options linkUnit).Settled b :=
  ⟨rfl, rfl, .refl⟩

theorem Agrees.settled (h : c.Agrees d) (hc : c.Settled b) : d.Settled b := by
  unfold Agrees at h
  rw [← h]
  exact ⟨hc.target, hc.options, hc.pool⟩

theorem Settled.compile (hc : c.Settled b) {index : Option Nat}
    (h : c.compile s item = (.ok index, d)) : d.Settled b := by
  obtain ⟨layout, -, hd⟩ := compile_extended h
  exact ⟨hd.target.trans hc.target, hd.options.trans hc.options, hc.pool.trans hd.pool⟩

end Compilation

variable {lib : Library} {call : Call}

/-- Requests, failed ones among them, only add to the routines and the data of a unit. -/
theorem LinkUnit.serve_extends {u : LinkUnit} {d : Compilation} (hu : u.compilation = some c)
    (hc : c.Balanced) (requests : List (Surroundings × UnitRequest))
    (hd : (u.serve requests).compilation = some d) :
    c.assembly.routines <+: d.assembly.routines ∧ c.assembly.pool.Reaches d.assembly.pool := by
  refine @serve_induction (fun _ => True) (fun d => c.assembly.routines <+: d.assembly.routines ∧
    c.assembly.pool.Reaches d.assembly.pool) ?_ ?_ u (forall_compilation hu hc)
    (forall_compilation hu ⟨prefix_refl _, .refl⟩) requests (fun _ _ => trivial) d hd
  · intro d e hagrees hd
    unfold Compilation.Agrees at hagrees
    rw [← hagrees]
    exact hd
  · intro d e r item index hd _ _ _ hcompile
    obtain ⟨layout, -, he⟩ := Compilation.compile_extended hcompile
    obtain ⟨new, hroutines, -⟩ := he.routines
    refine ⟨hd.1.trans ?_, hd.2.trans he.pool⟩
    rw [hroutines]
    exact prefix_append _ _

/-- Invariants of the compiles of a backend: what holds at the start and is kept by items that
compile. -/
theorem Backend.Builds.induction {P : Compilation → Prop}
    (hstart : ∀ linkUnit, P (.start b.target b.options linkUnit))
    (hagrees : ∀ {c d : Compilation}, c.Agrees d → P c → P d)
    (hcompile : ∀ {c d : Compilation} {s : Surroundings} {item : Compilable} {index : Option Nat},
      P c → c.refusal? item = none → c.compile s item = (.ok index, d) → P d) (h : b.Builds c) :
    P c := by
  cases h with
  | unit hserve =>
    exact @LinkUnit.serve_induction (fun _ => True) P hagrees
      (fun hc _ _ hrefusal hitem => hcompile hc hrefusal hitem) _
      (LinkUnit.forall_compilation rfl (Compilation.start_balanced _ _ _))
      (LinkUnit.forall_compilation rfl (hstart true)) _ (fun _ _ => trivial) c hserve
  | item hadd =>
    obtain ⟨hrefusal, hitem⟩ := Compilation.add_eq_ok_iff.mp hadd
    exact hcompile (hstart false) hrefusal hitem

/-- The compiles of a backend have its settings, and what they hold was added to an empty
pool. -/
theorem Backend.Builds.settled {b : Backend} {c : Compilation} (h : b.Builds c) : c.Settled b :=
  h.induction (Compilation.start_settled b) (fun hagrees hc => hagrees.settled hc)
    fun hc _ hitem => hc.compile hitem

/-- An item is part of a compile that a backend comes to: a unit that served requests before and
after was asked for it, or it was compiled by itself. -/
inductive Backend.Includes (b : Backend) (c : Compilation) (s : Surroundings) (item : Compilable) :
    Prop
  | unit {before later : List (Surroundings × UnitRequest)} {q : UnitRequest} {index : Option Nat}
      {u : LinkUnit} (hbuild : q.build s.library b.options = .ok item)
      (hadd : ((LinkUnit.create b).serve before).request s q = (.ok index, u))
      (hlater : (u.serve later).compilation = some c) : b.Includes c s item
  | item {index : Option Nat}
      (hadd : (Compilation.start b.target b.options false).add s item = (.ok index, c)) :
      b.Includes c s item

theorem Backend.Includes.builds (h : b.Includes c s item) : b.Builds c := by
  cases h with
  | @unit before later q index u hbuild hadd hlater =>
    have hserve : (LinkUnit.create b).serve (before ++ (s, q) :: later) = u.serve later := by
      unfold LinkUnit.serve at hadd ⊢
      rw [foldl_append, foldl_cons, hadd]
    rw [← hserve] at hlater
    exact .unit hlater
  | item hadd => exact .item hadd

/-- An item that is part of a compile was compiled on the way to it. -/
theorem Backend.Includes.exists_compile (h : b.Includes c s item) :
    ∃ (before after : Compilation) (index : Option Nat), before.Settled b ∧
      before.compile s item = (.ok index, after) ∧
      after.assembly.routines <+: c.assembly.routines ∧
      after.assembly.pool.Reaches c.assembly.pool := by
  cases h with
  | @unit requests later q index u hbuild hadd hlater =>
    obtain ⟨before, after, item', hopen, -, hbuild', -, hcompile, hu, hbalanced⟩ :=
      LinkUnit.compile_of_request hadd
    have hsettled := (Builds.unit hopen).settled
    rw [hsettled.options, hbuild] at hbuild'
    cases hbuild'
    exact ⟨before, after, index, hsettled, hcompile,
      LinkUnit.serve_extends hu hbalanced later hlater⟩
  | item hadd =>
    exact ⟨_, c, _, Compilation.start_settled b false, (Compilation.add_eq_ok_iff.mp hadd).2,
      prefix_refl _, .refl⟩

/-! ## Artifacts -/

/-- How a backend hands out an artifact.  A session that started with an empty cache answers a
call with it; or a unit served requests, failed ones among them, and was closed, maybe by another
backend of the same target. -/
inductive HandedOut [ShaderCheck] (b : Backend) (a : Artifact) : Prop
  | answer {lib : Library} {cache : Cache Digest CachedCode} {calls : List Call} {n : Nat}
      {call : Call} (hempty : cache.entries = [])
      (hhashes : Digest.NoCollision (calls.flatMap fun call => call.hashed lib))
      (hcall : calls[n]? = some call) (hb : call.backend = b)
      (hanswer : (Session.answers lib cache calls)[n]? = some (.ok a)) : HandedOut b a
  | unit {closer : Backend} {requests : List (Surroundings × UnitRequest)} {closed : LinkUnit}
      (hclose : closer.closeUnit ((LinkUnit.create b).serve requests) = (.ok a, closed)) :
      HandedOut b a

/-- How the code of an artifact of a backend was generated: by a compile of the backend, or by one
with options that give the same code, from which it was restored for an item. -/
inductive Generated [ShaderCheck] (b : Backend) (a : Artifact) (c : Compilation) : Prop
  | fresh (hbuilds : b.Builds c) (hfinish : c.finish = .ok a) : Generated b a c
  | restored {b' : Backend} {a' : Artifact} {tables : ResourceTables} {item : Compilable}
      (hbuilds : b'.Builds c) (hfinish : c.finish = .ok a') (htarget : b'.target = b.target)
      (hoptions : b.options.SameCode b'.options)
      (ha : a = Compilation.restore { Compilation.start b.target b.options false with tables }
        (.ofArtifact a') item) : Generated b a c

/-- What an item of a call compiles to is what a compile that it was added to ends with. -/
theorem Call.add_of_compiled [ShaderCheck] (h : call.compiled lib item = .ok a) :
    ∃ index c, (Compilation.start call.backend.target call.backend.options false).add
      ⟨call.store, lib⟩ item = (.ok index, c) ∧ c.finish = .ok a := by
  obtain ⟨index, c, hrefusal, hcompile, hfinish⟩ := Session.compileFresh_eq_ok h
  exact ⟨index, c, Compilation.add_eq_ok_iff.mpr ⟨hrefusal, hcompile⟩, hfinish⟩

namespace SharedCall

variable [ShaderCheck] {calls : List SharedCall} {c : SharedCall} {cache : Cache Digest CachedCode}

/-- An answer is compiled for its call, or restored from what an item of the same key compiled
to, whose parameters are declared alike. -/
theorem origin_of_answer (hhashes : Digest.NoCollision (calls.flatMap hashed)) (hc : c ∈ calls)
    (hcache : Genuine calls cache) (h : (c.answer cache).1 = .ok a) :
    ∃ item, c.item = .ok item ∧ (c.compiled item = .ok a ∨
      ∃ (c' : SharedCall) (item' : Compilable) (a' : Artifact), c'.compiled item' = .ok a' ∧
        item.parameters.map Parameter.declared = item'.parameters.map Parameter.declared ∧
        c'.call.backend.target = c.call.backend.target ∧
        c.call.backend.options.SameCode c'.call.backend.options ∧
        a = Compilation.restore { Compilation.start c.call.backend.target c.call.backend.options
          false with tables := (c.call.bound c.library item).1 } (.ofArtifact a') item) := by
  obtain ⟨item, hitem, hcompiled | ⟨huse, hit, hfind, rfl⟩⟩ := Call.answer_eq_ok h
  · exact ⟨item, hitem, .inl hcompiled⟩
  · obtain ⟨c', hc', huse', item', a', hitem', hkey, ha', rfl⟩ :=
      hcache _ (Cache.mem_of_find? hfind)
    have hhashed := hashed_subset hc
    have hhashed' := hashed_subset hc'
    unfold hashed at hhashed hhashed'
    rw [Call.hashed_ok hitem huse] at hhashed
    rw [Call.hashed_ok hitem' huse'] at hhashed'
    obtain ⟨hdeclared, htarget, hoptions⟩ := Compilable.declared_of_cacheKey hhashes
      (item.bindResources_fits _ _ _) (item'.bindResources_fits _ _ _) hhashed hhashed' hkey
    exact ⟨item, hitem, .inr ⟨c', item', a', ha', hdeclared.symm, htarget, hoptions, rfl⟩⟩

/-- The answer to a call has the code of its own compile or of an earlier one. -/
theorem exists_generated (hhashes : Digest.NoCollision (calls.flatMap hashed)) (hc : c ∈ calls)
    (hcache : Genuine calls cache) (h : (c.answer cache).1 = .ok a) :
    ∃ d, Generated c.call.backend a d := by
  obtain ⟨item, -, hcompiled | ⟨c', item', a', ha', -, htarget, hoptions, rfl⟩⟩ :=
    origin_of_answer hhashes hc hcache h
  · obtain ⟨_, d, hadd, hfinish⟩ := Call.add_of_compiled hcompiled
    exact ⟨d, .fresh (.item hadd) hfinish⟩
  · obtain ⟨_, d, hadd, hfinish⟩ := Call.add_of_compiled ha'
    exact ⟨d, .restored (.item hadd) hfinish htarget hoptions rfl⟩

end SharedCall

/-- Calls of one session that hash different texts to different digests, as calls of several. -/
theorem Digest.NoCollision.shared {calls : List Call}
    (h : Digest.NoCollision (calls.flatMap fun call => call.hashed lib)) :
    Digest.NoCollision ((calls.map (SharedCall.mk lib)).flatMap SharedCall.hashed) := by
  rwa [flatMap_map]

/-- The code of every artifact was generated by a compile. -/
theorem HandedOut.exists_generated [ShaderCheck] {b : Backend} {a : Artifact} (h : HandedOut b a) :
    ∃ c, Generated b a c := by
  cases h with
  | answer hempty hhashes hcall hb hanswer =>
    subst hb
    obtain ⟨cache, hgenuine, h⟩ := Session.exists_answer hempty hcall hanswer
    exact SharedCall.exists_generated hhashes.shared (mem_map_of_mem (mem_of_getElem? hcall))
      hgenuine h
  | unit hclose =>
    obtain ⟨c, hopen, hfinish⟩ := Backend.finish_of_closeUnit hclose
    exact ⟨c, .fresh (.unit hopen) hfinish⟩

namespace Generated

variable [ShaderCheck] {b : Backend} {a : Artifact} {c : Compilation}

theorem settled (h : Generated b a c) : ∃ b', c.Settled b' ∧ b'.target = b.target ∧
    b.options.SameCode b'.options := by
  cases h with
  | fresh hbuilds hfinish => exact ⟨b, hbuilds.settled, rfl, rfl⟩
  | restored hbuilds hfinish htarget hoptions ha => exact ⟨_, hbuilds.settled, htarget, hoptions⟩

/-- The code of an artifact is what the program of the compile is emitted as. -/
theorem exists_emitted (h : Generated b a c) : ∃ code : Emitted,
    c.assembly.finish.emit b.target b.options.outputFormat = .ok code ∧ a.body = code.body ∧
      a.roSegment = c.assembly.finish.roSegment := by
  obtain ⟨b', hsettled, htarget, hoptions⟩ := h.settled
  have hformat : c.options.outputFormat = b.options.outputFormat := by
    rw [hsettled.options, hoptions]
  have hemitted : ∀ {a' : Artifact}, c.finish = .ok a' → ∃ code : Emitted,
      c.assembly.finish.emit b.target b.options.outputFormat = .ok code ∧ a'.body = code.body ∧
        a'.roSegment = c.assembly.finish.roSegment := by
    intro a' hfinish
    obtain ⟨-, code, hemit, rfl⟩ := Compilation.finish_eq_ok hfinish
    rw [hsettled.target, htarget, hformat] at hemit
    exact ⟨code, hemit, rfl, rfl⟩
  cases h with
  | fresh hbuilds hfinish => exact hemitted hfinish
  | restored hbuilds hfinish _ _ ha =>
    obtain ⟨code, hemit, hbody, hdata⟩ := hemitted hfinish
    subst ha
    exact ⟨code, hemit, hbody, hdata⟩

end Generated

end Shading
