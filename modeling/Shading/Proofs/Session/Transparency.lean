import Shading.Proofs.Session.Reuse

/-!
# The cache of a session

Whether single functions are compiled by way of the cache cannot be told from what is handed
out: a session that answers calls with its cache gives the answers that it gives without.
The store may change from call to call, and so may targets and options; the cache may drop
entries at any time.

Main definitions:

- `Call` is a call of a session, `Session.answers` the answers to a list of calls.
- `SharedCall` is a call of one of several sessions, `SharedCall.answers` the answers to calls
  of all of them, in the order in which they are made.
- `SharedCall.Genuine` says that a cache holds what calls compile to, under their keys.

Main results:

- `Call.compiled_eq_restore`: the code of one call is restored to that of another call of the
  same key, which may be made with another library.
- `SharedCall.genuine_after`: the cache stays genuine.
- `SharedCall.answers_eq_of_genuine`: calls of several sessions are answered as without the cache.
- `Session.cached_answers_are_fresh`: all calls of one session are answered as without the cache.
-/

namespace Shading

open List

/-! ## Calls -/

/-- What a session can be asked to compile: what can be added to a unit, or a field of a
material for one object. -/
inductive CompileRequest
  | unit (r : UnitRequest)
  | uniformField (m : Material) (path name : String) (u : UniformState)

/-- What a request compiles. -/
def CompileRequest.build (r : CompileRequest) (lib : Library) (o : Options) :
    Except CompileError Compilable :=
  match r with
  | .unit r => r.build lib o
  | .uniformField m path name u => Compilable.ofUniformField m path name u o.compileConstants

theorem CompileRequest.kindFits_of_build {r : CompileRequest} {lib : Library} {o : Options}
    {item : Compilable} (h : r.build lib o = .ok item) : item.KindFits := by
  cases r with
  | unit r => exact UnitRequest.kindFits_of_build h
  | uniformField m path name u =>
    obtain ⟨_, _, h⟩ := exists_of_bind_eq_ok h
    obtain ⟨f, hf, h⟩ := exists_of_bind_eq_ok h
    split at h
    · cases h
    · cases h
      exact (Compilable.kindOf_ofField hf).symm

/-- A call of a session: the store as it stands at that time, a backend, and what is to be
compiled. -/
structure Call where
  store : AssetStore
  backend : Backend
  request : CompileRequest

namespace Call

/-- The session at the time of a call. -/
def session (call : Call) (lib : Library) (cache : Cache Digest CachedCode) : Session :=
  ⟨⟨call.store, lib⟩, cache⟩

/-- What a call compiles. -/
def item (call : Call) (lib : Library) : Except CompileError Compilable :=
  call.request.build lib call.backend.options

/-- The answer to a call, and the session after it. -/
def answer [ShaderCheck] (call : Call) (lib : Library) (cache : Cache Digest CachedCode) :
    Except CompileFailure Artifact × Session :=
  (call.session lib cache).compile call.backend (call.item lib)

/-- The same call without the cache. -/
def withoutCache (call : Call) : Call :=
  { call with backend := { call.backend with useCache := false } }

/-- What an item of a call is bound to, from fresh tables. -/
def bound (call : Call) (lib : Library) (item : Compilable) :
    ResourceTables × CompilableResources :=
  item.bindResources .initial call.store lib

/-- The key of an item of a call. -/
def key (call : Call) (lib : Library) (item : Compilable) : Digest :=
  item.cacheKey (call.bound lib item).2 call.backend.target call.backend.options

/-- What an item of a call compiles to. -/
def compiled [ShaderCheck] (call : Call) (lib : Library) (item : Compilable) :
    Except CompileFailure Artifact :=
  (call.session lib .unbounded).compileFresh
    (.start call.backend.target call.backend.options false) item

/-- Whether the numbers in the literals, the uniform state and the bound resources of a call
are finite. -/
def isFinite (call : Call) (lib : Library) : Bool :=
  match call.item lib with
  | .error _ => true
  | .ok item => item.isFinite (call.bound lib item).2

/-- The byte strings that are hashed for a call, none if it does not use the cache. -/
def hashed (call : Call) (lib : Library) : List Bytes :=
  match call.item lib with
  | .error _ => []
  | .ok item =>
    if call.backend.useCache then
      item.hashed (call.bound lib item).2 call.backend.target call.backend.options
    else []

variable {call : Call} {lib : Library}

theorem isFinite_ok {item : Compilable} (h : call.item lib = .ok item) :
    call.isFinite lib = item.isFinite (call.bound lib item).2 := by
  unfold isFinite
  rw [h]

theorem hashed_ok {item : Compilable} (h : call.item lib = .ok item)
    (huse : call.backend.useCache) : call.hashed lib
      = item.hashed (call.bound lib item).2 call.backend.target call.backend.options := by
  unfold hashed
  rw [h]
  exact if_pos huse

/-- Without the cache, an item is compiled from a fresh start. -/
theorem answer_unused [ShaderCheck] {item : Compilable} (h : call.item lib = .ok item)
    (huse : ¬call.backend.useCache) (cache : Cache Digest CachedCode) :
    call.answer lib cache = (call.compiled lib item, call.session lib cache) := by
  unfold answer
  rw [h]
  unfold Session.compile Session.compileItem
  dsimp only
  rw [if_neg huse]
  rfl

/-- What a call is answered without the cache does not depend on the cache. -/
theorem withoutCache_answer [ShaderCheck] (call : Call) (lib : Library)
    (cache : Cache Digest CachedCode) : (call.withoutCache.answer lib cache).1 =
      match call.item lib with
      | .error e => .error (.ofError e)
      | .ok item => call.compiled lib item := by
  cases hitem : call.item lib with
  | error e =>
    have hitem' : call.withoutCache.item lib = .error e := hitem
    unfold answer
    rw [hitem']
    rfl
  | ok item =>
    have hitem' : call.withoutCache.item lib = .ok item := hitem
    rw [answer_unused hitem' Bool.false_ne_true]
    rfl

end Call

/-! ## Caches -/

namespace Cache

variable {κ υ : Type}

theorem evict_subset (capacity : Option Nat) (entries : List (κ × υ)) :
    evict capacity entries ⊆ entries := by
  cases capacity with
  | none => exact List.Subset.refl entries
  | some n => exact drop_subset _ entries

variable [DecidableEq κ]

theorem mem_of_find? {c : Cache κ υ} {key : κ} {value : υ} (h : c.find? key = some value) :
    (key, value) ∈ c.entries := by
  unfold find? at h
  obtain ⟨e, he, rfl⟩ := Option.map_eq_some_iff.mp h
  have hkey : e.1 = key := by simpa using find?_some he
  rw [← hkey]
  exact mem_of_find?_eq_some he

/-- An entry after a write was there before, or is the one that was written. -/
theorem mem_insert {c : Cache κ υ} {key : κ} {value : υ} {e : κ × υ}
    (h : e ∈ (c.insert key value).entries) : e ∈ c.entries ∨ e = (key, value) := by
  have hmem := evict_subset _ _ h
  split at hmem
  · obtain ⟨e', he', heq⟩ := mem_map.mp hmem
    split at heq
    · exact .inr heq.symm
    · exact .inl (heq ▸ he')
  · simpa using hmem

end Cache

/-- What is asked of calls: strings have no ids, the output is not validated, the numbers are
finite, and no two of the byte strings that are hashed share their digest. -/
structure Call.Tame (lib : Library) (calls : List Call) : Prop where
  unmapped : ∀ call ∈ calls, call.backend.options.mapStringsToIds = false
  unvalidated : ∀ call ∈ calls, call.backend.options.validateOutput = false
  finite : ∀ call ∈ calls, call.isFinite lib
  hashes : Digest.NoCollision (calls.flatMap fun call => call.hashed lib)

namespace Call

variable {lib lib' : Library} {call call' : Call} {item item' : Compilable}
  {cache : Cache Digest CachedCode}

/-! ## Keys -/

/-- Items of two calls with the same key agree in all that the code depends on, whatever
libraries the calls are made with. -/
theorem sameKey_of_key {texts : List Bytes} (htexts : Digest.NoCollision texts)
    (hitem : call.item lib = .ok item) (hitem' : call'.item lib' = .ok item')
    (huse : call.backend.useCache) (huse' : call'.backend.useCache) (hfinite : call.isFinite lib)
    (hfinite' : call'.isFinite lib')
    (hhashed : call.hashed lib ⊆ texts) (hhashed' : call'.hashed lib' ⊆ texts)
    (hkey : call.key lib item = call'.key lib' item') :
    item.SameKey item' (call.bound lib item).2 (call'.bound lib' item').2 call.backend.target
      call'.backend.target call.backend.options call'.backend.options := by
  rw [isFinite_ok hitem] at hfinite
  rw [isFinite_ok hitem'] at hfinite'
  rw [hashed_ok hitem huse] at hhashed
  rw [hashed_ok hitem' huse'] at hhashed'
  exact Compilable.sameKey_of_cacheKey htexts (item.bindResources_fits _ _ _)
    (item'.bindResources_fits _ _ _) (CompileRequest.kindFits_of_build hitem)
    (CompileRequest.kindFits_of_build hitem') hfinite hfinite' hhashed hhashed' hkey

variable [ShaderCheck]

/-- What one call compiled to is restored to what another call of the same key compiles to,
if the libraries agree on what is called. -/
theorem compiled_eq_restore
    (hsame : item.SameKey item' (call.bound lib item).2 (call'.bound lib' item').2
      call.backend.target call'.backend.target call.backend.options call'.backend.options)
    (hcalls : item.SharesCalls lib lib') (hstrings : call.backend.options.mapStringsToIds = false)
    (hvalidate : call.backend.options.validateOutput = false)
    (hvalidate' : call'.backend.options.validateOutput = false) {a : Artifact}
    (ha : call.compiled lib item = .ok a) :
    call'.compiled lib' item' = .ok (Compilation.restore
      { Compilation.start call'.backend.target call'.backend.options false with
        tables := (call'.bound lib' item').1 } (.ofArtifact a) item') := by
  obtain ⟨halike, hparameters, hresources, htarget, hoptions⟩ := hsame
  have hoptions : call'.backend.options
      = call.backend.options.withConstants call'.backend.options.compileConstants := by
    unfold Options.SameCode at hoptions
    rw [hvalidate', ← hvalidate] at hoptions
    exact hoptions
  have hcalls : item.SharesCalls (call.session lib .unbounded).surroundings.library
      (call'.session lib' .unbounded).surroundings.library := hcalls
  unfold compiled
  rw [htarget, hoptions]
  exact Session.compileFresh_eq_restore hcalls hstrings halike hparameters hresources ha

/-! ## Answers -/

/-- The code of a hit is restored; the call is counted. -/
theorem answer_hit (hitem : call.item lib = .ok item) (huse : call.backend.useCache)
    {hit : CachedCode} (hfind : cache.find? (call.key lib item) = some hit) :
    call.answer lib cache = (.ok (Compilation.restore
      { Compilation.start call.backend.target call.backend.options false with
        tables := (call.bound lib item).1 } hit item),
      call.session lib { cache with hits := cache.hits + 1 }) := by
  have hlookup : cache.lookup (call.key lib item)
      = (some hit, { cache with hits := cache.hits + 1 }) := by
    unfold Cache.lookup
    rw [hfind]
  unfold answer
  rw [hitem]
  unfold Session.compile Session.compileItem
  dsimp only
  rw [if_pos huse]
  split
  · rename_i found after hfound
    cases hlookup.symm.trans hfound
    rfl
  · rename_i after hfound
    cases hlookup.symm.trans hfound

/-- Without a hit an item is compiled from a fresh start, and kept if it compiles. -/
theorem answer_miss (hitem : call.item lib = .ok item) (huse : call.backend.useCache)
    (hfind : cache.find? (call.key lib item) = none) :
    call.answer lib cache = (call.compiled lib item, call.session lib
      (match call.compiled lib item with
      | .error _ => { cache with misses := cache.misses + 1 }
      | .ok a => { cache with misses := cache.misses + 1 }.insert (call.key lib item)
          (.ofArtifact a))) := by
  have hlookup : cache.lookup (call.key lib item)
      = (none, { cache with misses := cache.misses + 1 }) := by
    unfold Cache.lookup
    rw [hfind]
  have hfresh : (call.session lib cache).compileFresh
      { Compilation.start call.backend.target call.backend.options false with
        tables := (call.bound lib item).1 } item = call.compiled lib item :=
    Session.compileFresh_bound _ (ResourceTables.initial_sound call.store) item
  unfold answer
  rw [hitem]
  unfold Session.compile Session.compileItem
  dsimp only
  rw [if_pos huse]
  split
  · rename_i found after hfound
    cases hlookup.symm.trans hfound
  · rename_i after hfound
    cases hlookup.symm.trans hfound
    split
    · rename_i e hcompiled
      rewrite [hfresh.symm.trans hcompiled]
      rfl
    · rename_i a hcompiled
      rewrite [hfresh.symm.trans hcompiled]
      rfl

/-- An answer is what the item of a call compiles to, or is restored from a hit. -/
theorem answer_eq_ok {a : Artifact} (h : (call.answer lib cache).1 = .ok a) :
    ∃ item, call.item lib = .ok item ∧ (call.compiled lib item = .ok a ∨
      call.backend.useCache ∧ ∃ hit, cache.find? (call.key lib item) = some hit ∧
      a = Compilation.restore
        { Compilation.start call.backend.target call.backend.options false with
          tables := (call.bound lib item).1 } hit item) := by
  cases hitem : call.item lib with
  | error e =>
    unfold answer at h
    rw [hitem] at h
    cases h
  | ok item =>
    refine ⟨item, rfl, ?_⟩
    by_cases huse : call.backend.useCache
    · cases hfind : cache.find? (call.key lib item) with
      | none =>
        rw [answer_miss hitem huse hfind] at h
        exact .inl h
      | some hit =>
        rw [answer_hit hitem huse hfind] at h
        cases h
        exact .inr ⟨huse, hit, rfl, rfl⟩
    · rw [answer_unused hitem huse] at h
      exact .inl h

/-- A call is answered with the cache as it is without, if what it finds there is restored to
what it compiles to. -/
theorem answer_eq_of_restores (h : call.backend.useCache → ∀ item hit, call.item lib = .ok item →
      cache.find? (call.key lib item) = some hit →
      call.compiled lib item = .ok (Compilation.restore
        { Compilation.start call.backend.target call.backend.options false with
          tables := (call.bound lib item).1 } hit item)) :
    (call.answer lib cache).1 = (call.withoutCache.answer lib cache).1 := by
  rw [withoutCache_answer]
  cases hitem : call.item lib with
  | error e =>
    unfold answer
    rw [hitem]
    rfl
  | ok item =>
    by_cases huse : call.backend.useCache
    · cases hfind : cache.find? (call.key lib item) with
      | some hit =>
        rw [answer_hit hitem huse hfind]
        exact (h huse item hit hitem hfind).symm
      | none => rw [answer_miss hitem huse hfind]
    · rw [answer_unused hitem huse]

/-- An entry of the cache after a call was there before, or is what the call compiles to,
under its key. -/
theorem mem_entries_after {e : Digest × CachedCode}
    (he : e ∈ (call.answer lib cache).2.cache.entries) :
    e ∈ cache.entries ∨ call.backend.useCache ∧ ∃ item a, call.item lib = .ok item ∧
      e.1 = call.key lib item ∧
      call.compiled lib item = .ok a ∧ e.2 = .ofArtifact a := by
  cases hitem : call.item lib with
  | error e =>
    unfold answer at he
    rw [hitem] at he
    exact .inl he
  | ok item =>
    by_cases huse : call.backend.useCache
    · cases hfind : cache.find? (call.key lib item) with
      | some hit =>
        rw [answer_hit hitem huse hfind] at he
        exact .inl he
      | none =>
        rw [answer_miss hitem huse hfind] at he
        cases ha : call.compiled lib item with
        | error e =>
          rw [ha] at he
          exact .inl he
        | ok a =>
          rw [ha] at he
          rcases Cache.mem_insert he with he | rfl
          · exact .inl he
          · exact .inr ⟨huse, item, a, rfl, rfl, ha, rfl⟩
    · rw [answer_unused hitem huse] at he
      exact .inl he

end Call

/-! ## Calls of several sessions -/

/-- A call of a session that has its own library and works with the cache of others. -/
structure SharedCall where
  library : Library
  call : Call

namespace SharedCall

variable [ShaderCheck] {cache : Cache Digest CachedCode}

/-- What a call compiles. -/
def item (c : SharedCall) : Except CompileError Compilable :=
  c.call.item c.library

/-- The key of an item of a call. -/
def key (c : SharedCall) (item : Compilable) : Digest :=
  c.call.key c.library item

/-- What an item of a call compiles to. -/
def compiled (c : SharedCall) (item : Compilable) : Except CompileFailure Artifact :=
  c.call.compiled c.library item

/-- The byte strings that are hashed for a call. -/
def hashed (c : SharedCall) : List Bytes :=
  c.call.hashed c.library

/-- The answer to a call, and the session that made it after the call. -/
def answer (c : SharedCall) (cache : Cache Digest CachedCode) :
    Except CompileFailure Artifact × Session :=
  c.call.answer c.library cache

/-- The same call without the cache. -/
def withoutCache (c : SharedCall) : SharedCall :=
  { c with call := c.call.withoutCache }

/-- The answers to calls, one after the other; each session leaves the cache to the next. -/
def answers (cache : Cache Digest CachedCode) :
    List SharedCall → List (Except CompileFailure Artifact)
  | [] => []
  | c :: rest => (c.answer cache).1 :: answers (c.answer cache).2.cache rest

/-- Every entry of the cache is what one of the calls compiles to, under the key of that
call. -/
def Genuine (calls : List SharedCall) (cache : Cache Digest CachedCode) : Prop :=
  ∀ e ∈ cache.entries, ∃ c ∈ calls, c.call.backend.useCache ∧ ∃ item a, c.item = .ok item ∧
    e.1 = c.key item ∧ c.compiled item = .ok a ∧ e.2 = .ofArtifact a

/-- Items of one key call the same fragments, whatever session compiles them. -/
def Agree (calls : List SharedCall) : Prop :=
  ∀ c ∈ calls, ∀ c' ∈ calls, ∀ item item', c.item = .ok item → c'.item = .ok item' →
    c.key item = c'.key item' → item.SharesCalls c.library c'.library

/-- What is asked of options and hashes: strings have no ids, the output is not validated,
and no two of the byte strings that are hashed share their digest. -/
structure Plain (calls : List SharedCall) : Prop where
  unmapped : ∀ c ∈ calls, c.call.backend.options.mapStringsToIds = false
  unvalidated : ∀ c ∈ calls, c.call.backend.options.validateOutput = false
  hashes : Digest.NoCollision (calls.flatMap hashed)

/-- The numbers in the literals, the uniform states and the bound resources of the calls are
finite. -/
def Finite (calls : List SharedCall) : Prop :=
  ∀ c ∈ calls, c.call.isFinite c.library

/-! ## The cache cannot be told from none -/

variable {calls : List SharedCall} {c : SharedCall} {cache : Cache Digest CachedCode}

theorem genuine_of_empty (h : cache.entries = []) : Genuine calls cache := by
  intro e he
  rw [h] at he
  cases he

omit [ShaderCheck] in
theorem hashed_subset (h : c ∈ calls) : c.hashed ⊆ calls.flatMap hashed :=
  fun _ hx => mem_flatMap.mpr ⟨c, h, hx⟩

theorem withoutCache_answer_eq (c : SharedCall) (cache other : Cache Digest CachedCode) :
    (c.withoutCache.answer cache).1 = (c.withoutCache.answer other).1 := by
  change (c.call.withoutCache.answer c.library cache).1
    = (c.call.withoutCache.answer c.library other).1
  rw [Call.withoutCache_answer, Call.withoutCache_answer]

/-- A call is answered with the cache of others as it is without. -/
theorem answer_eq_fresh (hplain : Plain calls) (hfinite : Finite calls) (hagree : Agree calls)
    (hc : c ∈ calls) (hcache : Genuine calls cache) :
    (c.answer cache).1 = (c.withoutCache.answer cache).1 := by
  refine Call.answer_eq_of_restores fun huse item hit hitem hfind => ?_
  -- The entry was made by a call of the same key, perhaps of another session.
  obtain ⟨c', hc', huse', item', a, hitem', hkey, ha, rfl⟩ := hcache _ (Cache.mem_of_find? hfind)
  have hcalls : item'.SharesCalls c'.library c.library :=
    hagree c' hc' c hc item' item hitem' hitem hkey.symm
  have hsame := Call.sameKey_of_key hplain.hashes hitem' hitem huse' huse (hfinite c' hc')
    (hfinite c hc) (hashed_subset hc') (hashed_subset hc) hkey.symm
  exact Call.compiled_eq_restore hsame hcalls (hplain.unmapped c' hc')
    (hplain.unvalidated c' hc') (hplain.unvalidated c hc) ha

/-- A call leaves a cache that is genuine. -/
theorem genuine_after (hc : c ∈ calls) (hcache : Genuine calls cache) :
    Genuine calls (c.answer cache).2.cache := by
  intro e he
  rcases Call.mem_entries_after he with he | hmade
  · exact hcache e he
  · exact ⟨c, hc, hmade⟩

/-- Calls are answered as without the cache, if it is genuine at first. -/
theorem answers_eq_of_genuine {all : List SharedCall} (hplain : Plain all) (hfinite : Finite all)
    (hagree : Agree all) (hcalls : calls ⊆ all) (hcache : Genuine all cache)
    (other : Cache Digest CachedCode) :
    answers cache calls = calls.map fun c => (c.withoutCache.answer other).1 := by
  induction calls generalizing cache with
  | nil => rfl
  | cons c rest ih =>
    obtain ⟨hc, hrest⟩ := cons_subset.mp hcalls
    rw [answers, map_cons, ih hrest (genuine_after hc hcache),
      answer_eq_fresh hplain hfinite hagree hc hcache, withoutCache_answer_eq c cache other]

/-- Each answer is given over a cache that earlier calls filled. -/
theorem exists_answer {earlier : List SharedCall} (hcache : Genuine earlier cache) {n : Nat}
    {answer : Except CompileFailure Artifact} (h : (answers cache calls)[n]? = some answer) :
    ∃ c cache', calls[n]? = some c ∧ Genuine (earlier ++ calls.take n) cache' ∧
      (c.answer cache').1 = answer := by
  induction calls generalizing earlier cache n with
  | nil => cases h
  | cons first rest ih =>
    cases n with
    | zero =>
      rw [take_zero, append_nil]
      exact ⟨first, cache, rfl, hcache, Option.some.inj h⟩
    | succ n =>
      have hafter : Genuine (earlier ++ [first]) (first.answer cache).2.cache := by
        refine genuine_after (mem_append_right _ (mem_singleton_self _)) ?_
        intro e he
        obtain ⟨c, hc, hmade⟩ := hcache e he
        exact ⟨c, mem_append_left _ hc, hmade⟩
      obtain ⟨c, cache', hc, hcache', hanswer⟩ := ih hafter h
      refine ⟨c, cache', hc, ?_, hanswer⟩
      rw [take_succ_cons]
      rwa [append_assoc] at hcache'

end SharedCall

/-! ## Calls of one session -/

namespace Session

variable [ShaderCheck]

/-- The answers to calls, one after the other. -/
def answers (lib : Library) (cache : Cache Digest CachedCode) :
    List Call → List (Except CompileFailure Artifact)
  | [] => []
  | call :: rest => (call.answer lib cache).1 :: answers lib (call.answer lib cache).2.cache rest

/-- The calls of one session, as calls of several sessions. -/
theorem answers_eq (lib : Library) (cache : Cache Digest CachedCode) (calls : List Call) :
    answers lib cache calls = SharedCall.answers cache (calls.map (.mk lib)) := by
  induction calls generalizing cache with
  | nil => rfl
  | cons call rest ih =>
    rw [answers, ih]
    rfl

/-- Each call is answered over a cache that is genuine. -/
theorem exists_answer {lib : Library} {cache : Cache Digest CachedCode} {calls : List Call}
    (hempty : cache.entries = []) {n : Nat} {call : Call} (hcall : calls[n]? = some call)
    {answer : Except CompileFailure Artifact}
    (hanswer : (answers lib cache calls)[n]? = some answer) :
    ∃ cache', SharedCall.Genuine (calls.map (.mk lib)) cache' ∧
      (call.answer lib cache').1 = answer := by
  rw [answers_eq] at hanswer
  obtain ⟨c, cache', hc, hgenuine, h⟩ :=
    SharedCall.exists_answer (@SharedCall.genuine_of_empty _ [] _ hempty) hanswer
  rw [getElem?_map, hcall] at hc
  cases hc
  refine ⟨cache', fun e he => ?_, h⟩
  obtain ⟨c, hc, hmade⟩ := hgenuine e he
  exact ⟨c, take_subset _ _ hc, hmade⟩

/-- A session that starts with an empty cache, of any capacity, answers every one of its
calls as it would without the cache: with the same failure and messages, or with the same
artifact. -/
theorem cached_answers_are_fresh (lib : Library) (calls : List Call) (h : Call.Tame lib calls)
    (cache other : Cache Digest CachedCode) (hempty : cache.entries = []) :
    answers lib cache calls
      = calls.map fun call => (call.withoutCache.answer lib other).1 := by
  have hplain : SharedCall.Plain (calls.map (.mk lib)) := by
    refine ⟨forall_mem_map.mpr h.unmapped, forall_mem_map.mpr h.unvalidated, ?_⟩
    rw [flatMap_map]
    exact h.hashes
  -- One library agrees with itself.
  have hagree : SharedCall.Agree (calls.map (.mk lib)) := by
    refine forall_mem_map.mpr fun call _ => forall_mem_map.mpr fun call' _ => ?_
    exact fun item _ _ _ _ => .refl item lib
  rw [answers_eq, SharedCall.answers_eq_of_genuine hplain (forall_mem_map.mpr h.finite) hagree
    (List.Subset.refl _) (SharedCall.genuine_of_empty hempty) other, map_map]
  rfl

end Session

variable (store : AssetStore)

/-- A function whose result is its parameter, of which the value is given. -/
def gain (level : Int32) : Fragment :=
  { Fragment.empty "gain" .core with
    graph := ⟨#[⟨.parameter 0, .int⟩]⟩
    roots := some (.single 0)
    parameters := [⟨"level", .int, .int level⟩] }

/-- A call for the function with one of its values, over one of the stores. -/
def gainCall (store : AssetStore) (level : Int32) : Call :=
  ⟨store, ⟨.native, .default, true⟩, .unit (.fragment (gain level))⟩

/-- The content of the function, with sorted keys. -/
def gainContent : Json :=
  .object [
    ("context", .string "core"),
    ("nodes", .array [.object [("id", .ofNat 0), ("node", .object [
      ("op", .object [("index", .ofNat 0), ("kind", .string "parameter")]),
      ("type", .object [("type", .string "int")])])]]),
    ("parameters", .array [.object [("name", .string "level"),
      ("type", .object [("type", .string "int")])]]),
    ("roots", .object [("form", .string "single"), ("nodes", .ofNat 0)]),
    ("uniform_state", .null)]

/-- What is hashed for the key of the function, whatever its value. -/
def gainKey : Json :=
  .object [
    ("generator", .string generatorTag), ("target", .ofNamed TargetKind.native),
    ("function", .string "gain"), ("content_hash", .string (Digest.ofText gainContent.text).hex),
    ("resources", .array []), ("target_arch", .ofNat 20),
    ("output_format", .ofNamed OutputFormat.assembly),
    ("context", .ofNamed ExecutionContext.core), ("num_texture_spaces", .ofNat 32),
    ("num_texture_results", .ofNat 0), ("internal_space", .ofNamed InternalSpace.world),
    ("opt_level", .ofNat 2), ("fast_math", .bool true), ("enable_exceptions", .bool true),
    ("enable_ro_segment", .bool false), ("call_mode", .ofNamed CallMode.vtable),
    ("map_strings_to_ids", .bool false)]

theorem gain_reachable (level : Int32) : (gain level).reachable = [(0, ⟨.parameter 0, .int⟩)] := by
  cbv

theorem gain_content (level : Int32) : (gain level).content = gainContent := by
  unfold Fragment.content
  rw [gain_reachable]
  simp [gain, Fragment.empty, Json.ofOption, Json.ofList, Fragment.rootsToJson, Node.toJson,
    NodeOp.toJson, Json.sortKeys, Json.sortMembers, Json.sortItems, List.mergeSort,
    ValueType.toJson, ValueType.kind, Json.ofNamed, gainContent, Named.name, Json.ofNat]

theorem gain_keyContent (level : Int32) :
    (gain level).keyContent OrderedMap.empty .native .default = gainKey := by
  unfold Fragment.keyContent Fragment.contentHash
  rw [gain_content]
  rfl

theorem gainCall_bound (level : Int32) :
    (gainCall store level).bound .empty (.function (gain level) .lambda)
      = (.initial, .function OrderedMap.empty) := by
  unfold Call.bound Compilable.bindResources ResourceTables.bindFragment Library.resourceRefs
  dsimp only
  rw [gain_reachable]
  cbv

theorem gainCall_item (level : Int32) :
    (gainCall store level).item .empty = .ok (.function (gain level) .lambda) :=
  rfl

theorem gainCall_hashed (level : Int32) :
    (gainCall store level).hashed .empty
      = [Bytes.ofText gainContent.text, Bytes.ofText gainKey.text] := by
  rw [Call.hashed_ok (gainCall_item store level) rfl, gainCall_bound]
  change Fragment.hashed (gain level) OrderedMap.empty .native .default = _
  unfold Fragment.hashed
  rw [gain_content, gain_keyContent]

theorem gainCalls_tame : Call.Tame .empty [gainCall .empty 3, gainCall oneTexture.store 5] := by
  have hdistinct : Digest.ofText gainContent.text ≠ Digest.ofText gainKey.text := by
    simp only [gainKey, Digest.ofText, Bytes.ofText_text]
    decide +kernel
  have hfinite : ∀ store level, (gainCall store level).isFinite .empty := by
    intro store level
    rw [Call.isFinite_ok (gainCall_item store level), gainCall_bound]
    change ((gain level).isFinite && ResourceMap.isFinite OrderedMap.empty) = true
    unfold Fragment.isFinite
    rw [gain_reachable]
    rfl
  constructor
  · simp [gainCall, Options.default]
  · simp [gainCall, Options.default]
  · simp [hfinite]
  · simp only [flatMap_cons, flatMap_nil, gainCall_hashed]
    unfold Digest.ofText at hdistinct
    simp [Digest.NoCollision, hdistinct, hdistinct.symm]

theorem gainCall_key (level : Int32) :
    (gainCall store level).key .empty (.function (gain level) .lambda)
      = Digest.ofText gainKey.text := by
  unfold Call.key
  rw [gainCall_bound]
  change Digest.ofText ((gain level).keyContent OrderedMap.empty .native .default).text = _
  rw [gain_keyContent]

theorem gainCall_compiled (level : Int32) :
    ((gainCall store level).compiled .empty (.function (gain level) .lambda)).map (·.blocks)
      = .ok [Bytes.ofWord32 level.toUInt32] := by
  cbv

/-- The second call finds the code of the first one in the cache, and is answered with its
own value in the argument block. -/
theorem cached_answers_are_fresh_gain : let first := gainCall .empty 3
    let second := gainCall oneTexture.store 5
    Call.Tame .empty [first, second] ∧
      (second.answer .empty (first.answer .empty (.bounded 1)).2.cache).2.cache.hits = 1 ∧
      (Session.answers .empty (.bounded 1) [first, second]).map (fun a => a.map (·.blocks))
        = [.ok [[3, 0, 0, 0]], .ok [[5, 0, 0, 0]]] := by
  intro first second
  refine ⟨gainCalls_tame, ?_, ?_⟩
  · obtain ⟨a, ha, -⟩ := exists_of_bind_eq_ok (gainCall_compiled .empty 3)
    have hmiss : first.answer .empty (.bounded 1) = (_, _) :=
      Call.answer_miss (gainCall_item .empty 3) rfl rfl
    have hfind : (first.answer .empty (.bounded 1)).2.cache.find?
        (second.key .empty (.function (gain 5) .lambda)) = some (.ofArtifact a) := by
      rw [hmiss, gainCall_key, gainCall_key, ha]
      simp [Call.session, Cache.insert, Cache.find?, Cache.bounded, Cache.evict]
    rw [Call.answer_hit (gainCall_item oneTexture.store 5) rfl hfind, hmiss, ha]
    rfl
  · have h := Session.cached_answers_are_fresh .empty [first, second] gainCalls_tame (.bounded 1)
      .unbounded rfl
    rw [h]
    simp only [map_cons, map_nil, Call.withoutCache_answer]
    exact congrArg₂ (fun a b => [a, b]) (gainCall_compiled .empty 3)
      (gainCall_compiled oneTexture.store 5)

end Shading
