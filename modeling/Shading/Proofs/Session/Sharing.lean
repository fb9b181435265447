import Shading.Proofs.Session.Transparency

/-!
# Sessions that share a cache

Sessions with different stores and libraries may work with one cache.  The key of an item
holds the names of the fragments that are called, but not what these names stand for, and a
number that is not finite is written like any other such number.  Where the libraries agree
on what items of one key call, and numbers are finite, a session cannot tell that others use
its cache; two sessions for which one key stands for different code can.

Main definitions:

- `SharedCall.Leaks` says that a session is answered with the code of another one.

Main results:

- `SharedCall.shared_answers_are_fresh`: all calls are answered as without the cache.
- `SharedCall.leaks_of_key`: items of one key that compile to different code leak.
- `shared_cache_leaks`: libraries that differ in a called fragment leak, and so do stores that
  differ in a number that is not finite.
-/

namespace Shading

open List

namespace SharedCall

/-- Sessions that share a cache, which is empty at first, are answered every one of their
calls as they are without it, however the calls are interleaved: with the same failure and
messages, or with the same artifact. -/
theorem shared_answers_are_fresh [ShaderCheck] (calls : List SharedCall) (hplain : Plain calls)
    (hfinite : Finite calls) (hagree : Agree calls) (cache other : Cache Digest CachedCode)
    (hempty : cache.entries = []) :
    answers cache calls = calls.map fun c => (c.withoutCache.answer other).1 := by
  exact answers_eq_of_genuine hplain hfinite hagree (List.Subset.refl calls)
    (genuine_of_empty hempty) other

end SharedCall

/-! ## Agreement and leaks -/

/-- The instructions of the routines of a program. -/
def CodeBody.instructions : CodeBody → List (Array Instr)
  | .native program => program.routines.map (·.body)
  | _ => []

section Function

variable {c : SharedCall} {f : Fragment} {kind : FunctionKind} {m : ResourceMap}

theorem SharedCall.hashed_function (hitem : c.item = .ok (.function f kind))
    (huse : c.call.backend.useCache)
    (hbound : (c.call.bound c.library (.function f kind)).2 = .function m) :
    c.hashed = f.hashed m c.call.backend.target c.call.backend.options := by
  unfold hashed
  rw [Call.hashed_ok hitem huse, hbound]
  rfl

theorem SharedCall.key_function
    (hbound : (c.call.bound c.library (.function f kind)).2 = .function m) :
    c.key (.function f kind) = f.cacheKey m c.call.backend.target c.call.backend.options := by
  unfold key Call.key
  rw [hbound]
  rfl

theorem SharedCall.isFinite_function (hitem : c.item = .ok (.function f kind))
    (hbound : (c.call.bound c.library (.function f kind)).2 = .function m) :
    c.call.isFinite c.library = (f.isFinite && m.isFinite) := by
  rw [Call.isFinite_ok hitem, hbound]
  rfl

end Function

/-- Of two sessions that share a cache, the second one is answered with the instructions of
the first one, `code`, and not with those that it gets without the cache, `own`. -/
structure SharedCall.Leaks [ShaderCheck] (c c' : SharedCall) (code own : List (Array Instr)) :
    Prop where
  shared : (answers .unbounded [c, c']).map (fun a => a.map (·.body.instructions))
    = [.ok code, .ok code]
  fresh : (c'.withoutCache.answer .unbounded).1.map (·.body.instructions) = .ok own
  differ : code ≠ own

/-- What a call compiled to is found by a later call of the same key. -/
theorem SharedCall.exists_hit [ShaderCheck] {c c' : SharedCall} {item item' : Compilable}
    {a : Artifact}
    (hitem : c.item = .ok item) (hitem' : c'.item = .ok item') (huse : c.call.backend.useCache)
    (huse' : c'.call.backend.useCache) (hkey : c'.key item' = c.key item)
    (ha : c.compiled item = .ok a) :
    (c.answer .unbounded).1 = .ok a ∧ ∃ a', (c'.answer (c.answer .unbounded).2.cache).1 = .ok a' ∧
      a'.body = a.body ∧ a'.stateUsage = a.stateUsage := by
  have hmiss : c.answer .unbounded = (_, _) := Call.answer_miss hitem huse rfl
  have ha : c.call.compiled c.library item = .ok a := ha
  rw [ha] at hmiss
  -- The first call leaves its code under the key that the second one asks for.
  have hfind : (c.answer .unbounded).2.cache.find? (c'.key item') = some (.ofArtifact a) := by
    rw [hmiss, hkey]
    simp [Call.session, Cache.insert, Cache.find?, Cache.unbounded, Cache.evict, key]
  exact ⟨congrArg Prod.fst hmiss, _,
    congrArg Prod.fst (Call.answer_hit hitem' huse' hfind), rfl, rfl⟩

/-- Items of one key that compile to different instructions leak. -/
theorem SharedCall.leaks_of_key [ShaderCheck] {c c' : SharedCall} {item item' : Compilable}
    (hitem : c.item = .ok item) (hitem' : c'.item = .ok item') (huse : c.call.backend.useCache)
    (huse' : c'.call.backend.useCache) (hkey : c'.key item' = c.key item)
    {code own : List (Array Instr)} (hcode : (c.compiled item).map (·.body.instructions) = .ok code)
    (hown : (c'.compiled item').map (·.body.instructions) = .ok own) (hdiffer : code ≠ own) :
    Leaks c c' code own := by
  obtain ⟨a, ha, hbody⟩ := exists_of_bind_eq_ok hcode
  obtain ⟨hfirst, a', ha', hsame, -⟩ := exists_hit hitem hitem' huse huse' hkey ha
  have hcode' : a.body.instructions = code := Except.ok.inj hbody
  constructor
  · rw [answers, answers, answers, ha', hfirst]
    simp [Except.map, hsame, hcode']
  · have hfresh := Call.withoutCache_answer c'.call c'.library .unbounded
    rw [show c'.call.item c'.library = .ok item' from hitem'] at hfresh
    change (c'.call.withoutCache.answer c'.library .unbounded).1.map _ = _
    rw [hfresh]
    exact hown
  · exact hdiffer

/-- A function that calls another one by its name. -/
def tone : Fragment :=
  { Fragment.empty "tone" .core with
    graph := ⟨#[⟨.call "level" [], .int⟩]⟩
    roots := some (.single 0) }

/-- A function with a constant result. -/
def level (n : Int32) : Fragment :=
  { Fragment.empty "level" .core with
    graph := ⟨#[⟨.constant (.int n), .int⟩]⟩
    roots := some (.single 0) }

/-- A library with the function that is called, and one that is not. -/
def toneLibrary (n other : Int32) : Library :=
  (Library.empty.insert "level" (level n)).insert "spare" (level other)

/-- The default options, with no pass over the code. -/
def unoptimized : Options :=
  { Options.default with optLevel := 0 }

/-- A call for the function by a session that has one of the libraries. -/
def toneCall (n other : Int32) : SharedCall :=
  ⟨toneLibrary n other, .empty, ⟨.native, unoptimized, true⟩, .unit (.fragment tone)⟩

/-- The content of the function, with sorted keys. -/
def toneContent : Json :=
  .object [
    ("context", .string "core"),
    ("nodes", .array [.object [("id", .ofNat 0), ("node", .object [
      ("op", .object [("args", .array []), ("kind", .string "call"), ("name", .string "level")]),
      ("type", .object [("type", .string "int")])])]]),
    ("parameters", .array []),
    ("roots", .object [("form", .string "single"), ("nodes", .ofNat 0)]),
    ("uniform_state", .null)]

theorem tone_reachable : tone.reachable = [(0, ⟨.call "level" [], .int⟩)] := by
  cbv

theorem tone_content : tone.content = toneContent := by
  unfold Fragment.content
  rw [tone_reachable]
  simp [tone, Fragment.empty, Json.ofOption, Json.ofList, Fragment.rootsToJson, Node.toJson,
    NodeOp.toJson, Json.sortKeys, Json.sortMembers, Json.sortItems, List.mergeSort,
    ValueType.toJson, ValueType.kind, Json.ofNamed, toneContent, Named.name, Json.ofNat]

theorem tone_isFinite : tone.isFinite := by
  unfold Fragment.isFinite
  rw [tone_reachable]
  rfl

theorem toneCall_item (n other : Int32) : (toneCall n other).item = .ok (.function tone .lambda) :=
  rfl

theorem toneCall_bound (n other : Int32) :
    ((toneCall n other).call.bound (toneCall n other).library (.function tone .lambda)).2
      = .function OrderedMap.empty := by
  cbv

theorem Digest.noCollision_twice {x y : Bytes} (h : Digest.of x ≠ Digest.of y) :
    Digest.NoCollision ([x, y] ++ [x, y]) := by
  simp [Digest.NoCollision, h, h.symm]

theorem tone_hashed_noCollision :
    Digest.NoCollision (tone.hashed OrderedMap.empty .native unoptimized
      ++ tone.hashed OrderedMap.empty .native unoptimized) := by
  apply Digest.noCollision_twice
  unfold Fragment.keyContent Fragment.contentHash
  rw [tone_content]
  simp only [Digest.ofText, Bytes.ofText_text]
  decide +kernel

theorem toneCalls_plain (n n' other other' : Int32) :
    SharedCall.Plain [toneCall n other, toneCall n' other'] := by
  have hhashed : ∀ n other, (toneCall n other).hashed
      = tone.hashed OrderedMap.empty .native unoptimized :=
    fun n other => SharedCall.hashed_function (toneCall_item n other) rfl (toneCall_bound n other)
  constructor
  · simp [toneCall, unoptimized, Options.default]
  · simp [toneCall, unoptimized, Options.default]
  · simpa [hhashed] using tone_hashed_noCollision

theorem toneCalls_finite (n n' other other' : Int32) :
    SharedCall.Finite [toneCall n other, toneCall n' other'] := by
  have hfinite : ∀ n other, (toneCall n other).call.isFinite (toneCall n other).library := by
    intro n other
    rw [SharedCall.isFinite_function (toneCall_item n other) (toneCall_bound n other),
      tone_isFinite]
    rfl
  simp [SharedCall.Finite, hfinite]

theorem toneCall_compiled (n other : Int32) :
    ((toneCall n other).compiled (.function tone .lambda)).map (·.body.instructions)
      = .ok [#[⟨.int, .int n⟩]] := by
  cbv

theorem Graph.eq_of_node?_single {node found : Node} {id : Nat}
    (h : (⟨#[node]⟩ : Graph).node? id = some found) : found = node := by
  cases id with
  | zero => exact (Option.some.inj h).symm
  | succ n => cases h

/-- The function calls nothing but the one function. -/
theorem eq_level_of_calls {n other : Int32} {name : String}
    (h : (toneLibrary n other).resolver.Calls tone.graph tone.rootNodes name) : name = "level" := by
  cases h with
  | here hid hnode =>
    cases Graph.eq_of_node?_single hnode
    rfl
  | call hid hnode hfound hcalls =>
    cases Graph.eq_of_node?_single hnode
    have hlevel : (toneLibrary n other).fragments.find? "level" = some (level n) := rfl
    cases hlevel.symm.trans (Library.resolve?_eq_fragment_iff.mp hfound)
    -- A constant calls nothing.
    cases hcalls with
    | here hid hnode => cases Graph.eq_of_node?_single hnode
    | call hid hnode hfound hcalls => cases Graph.eq_of_node?_single hnode

theorem tone_sharesCalls (n other other' : Int32) :
    (Compilable.function tone .lambda).SharesCalls (toneLibrary n other)
      (toneLibrary n other') := by
  intro f hf name hname
  cases mem_singleton.mp hf
  rw [eq_level_of_calls hname]
  rfl

theorem toneCalls_agree (n other other' : Int32) :
    SharedCall.Agree [toneCall n other, toneCall n other'] := by
  have hshares : ∀ a b, ∀ item, (toneCall n a).item = .ok item →
      item.SharesCalls (toneLibrary n a) (toneLibrary n b) := by
    intro a b item hitem
    cases hitem
    exact tone_sharesCalls n a b
  intro c hc c' hc' item item' hitem hitem' hkey
  simp only [mem_cons, not_mem_nil, or_false] at hc hc'
  rcases hc with rfl | rfl <;> rcases hc' with rfl | rfl <;> exact hshares _ _ item hitem

/-- Two sessions whose libraries differ, but not in what is called, share the code. -/
theorem shared_answers_are_fresh_tone : let calls := [toneCall 1 2, toneCall 1 3]
    SharedCall.Plain calls ∧ SharedCall.Finite calls ∧ SharedCall.Agree calls ∧
      (SharedCall.answers .unbounded calls).map (fun a => a.map (·.body.instructions))
        = [.ok [#[⟨.int, .int 1⟩]], .ok [#[⟨.int, .int 1⟩]]] := by
  intro calls
  refine ⟨toneCalls_plain 1 1 2 3, toneCalls_finite 1 1 2 3, toneCalls_agree 1 2 3, ?_⟩
  rw [SharedCall.shared_answers_are_fresh calls (toneCalls_plain 1 1 2 3)
    (toneCalls_finite 1 1 2 3) (toneCalls_agree 1 2 3) .unbounded .unbounded rfl]
  have hfresh : ∀ other, ((toneCall 1 other).withoutCache.answer .unbounded).1
      = (toneCall 1 other).compiled (.function tone .lambda) :=
    fun other => Call.withoutCache_answer (toneCall 1 other).call (toneLibrary 1 other) .unbounded
  simp only [calls, map_cons, map_nil, hfresh, toneCall_compiled]

/-- A function that asks for the power of a light profile. -/
def lamp : Fragment :=
  { Fragment.empty "lamp" .core with
    graph := ⟨#[⟨.constant (.lightProfile (some "lamp.ies")), .lightProfile⟩,
      ⟨.call "df::light_profile_power" [0], .float⟩]⟩
    roots := some (.single 1) }

/-- The light profile as it is bound to the function. -/
def lampMap (power : Float32) : ResourceMap :=
  OrderedMap.empty.insert ⟨.lightProfile, some "lamp.ies"⟩ ⟨1, ⟨true, .lightProfile power 1⟩⟩

/-- A call for the function by a session whose light profile has some power. -/
def lampCall (power : Float32) : SharedCall :=
  ⟨.empty, AssetStore.empty.insert .lightProfile "lamp.ies" ⟨true, .lightProfile power 1⟩,
    ⟨.native, unoptimized, true⟩, .unit (.fragment lamp)⟩

/-- The content of the function, with sorted keys. -/
def lampContent : Json :=
  .object [
    ("context", .string "core"),
    ("nodes", .array [
      .object [("id", .ofNat 0), ("node", .object [
        ("op", .object [("kind", .string "constant"), ("value", .object [
          ("kind", .string "light_profile"),
          ("value", .object [("name", .string "lamp.ies")])])]),
        ("type", .object [("type", .string "light_profile")])])],
      .object [("id", .ofNat 1), ("node", .object [
        ("op", .object [("args", .array [.ofNat 0]), ("kind", .string "call"),
          ("name", .string "df::light_profile_power")]),
        ("type", .object [("type", .string "float")])])]]),
    ("parameters", .array []),
    ("roots", .object [("form", .string "single"), ("nodes", .ofNat 1)]),
    ("uniform_state", .null)]

theorem lamp_reachable :
    lamp.reachable = [(0, ⟨.constant (.lightProfile (some "lamp.ies")), .lightProfile⟩),
      (1, ⟨.call "df::light_profile_power" [0], .float⟩)] := by
  cbv

theorem lamp_content : lamp.content = lampContent := by
  unfold Fragment.content
  rw [lamp_reachable]
  simp [lamp, Fragment.empty, Json.ofOption, Json.ofList, Fragment.rootsToJson, Node.toJson,
    NodeOp.toJson, Json.sortKeys, Json.sortMembers, Json.sortItems, List.mergeSort,
    ValueType.toJson, ValueType.kind, Json.ofNamed, lampContent, Named.name, Json.ofNat,
    Value.toJson, Value.wrap, Value.nameToJson]

theorem lamp_isFinite : lamp.isFinite := by
  unfold Fragment.isFinite
  rw [lamp_reachable]
  rfl

theorem lampCall_item (power : Float32) : (lampCall power).item = .ok (.function lamp .lambda) :=
  rfl

theorem lampCall_bound (power : Float32) :
    ((lampCall power).call.bound (lampCall power).library (.function lamp .lambda)).2
      = .function (lampMap power) := by
  cbv

theorem lampCall_compiled (power : Float32) :
    ((lampCall power).compiled (.function lamp .lambda)).map (·.body.instructions)
      = .ok [#[⟨.int, .int 1⟩, ⟨.float, .float power⟩]] := by
  cbv

/-- The binding of the light profile in the key, where its power is not finite. -/
def lampResources : Json :=
  .array [.array [
    .object [("kind", .ofNamed ResourceKind.lightProfile), ("name", .string "lamp.ies")],
    .object [("index", .ofNat 1), ("attributes", .object [("valid", .bool true), ("meta",
      .object [("kind", .string "light_profile"), ("power", .null),
        ("maximum", .ofFloat32 1)])])]]]

theorem lampMap_toJson {power : Float32} (h : ¬ Float32.finite power) :
    (lampMap power).toJson = lampResources := by
  have hpower : Json.ofFloat32 power = .null := (Json.ofFloat32_eq_null_iff power).mpr h
  change Json.array [.array [_, .object [_, (_, .object [_, (_,
    .object [_, (_, Json.ofFloat32 power), _])])]]] = _
  rw [hpower]
  rfl

/-- Powers that are not finite are not told apart in the key. -/
theorem lamp_keyContent {power power' : Float32} (h : ¬ Float32.finite power)
    (h' : ¬ Float32.finite power') :
    lamp.keyContent (lampMap power) .native unoptimized
      = lamp.keyContent (lampMap power') .native unoptimized := by
  unfold Fragment.keyContent
  rw [lampMap_toJson h, lampMap_toJson h']

theorem lamp_hashed_noCollision {power : Float32} (h : ¬ Float32.finite power) :
    Digest.NoCollision (lamp.hashed (lampMap power) .native unoptimized
      ++ lamp.hashed (lampMap power) .native unoptimized) := by
  apply Digest.noCollision_twice
  unfold Fragment.keyContent Fragment.contentHash
  rw [lampMap_toJson h, lamp_content]
  simp only [Digest.ofText, Bytes.ofText_text]
  decide +kernel

theorem lampCalls_plain {power power' : Float32} (h : ¬ Float32.finite power)
    (h' : ¬ Float32.finite power') : SharedCall.Plain [lampCall power, lampCall power'] := by
  have hhashed : (lampCall power).hashed = lamp.hashed (lampMap power) .native unoptimized :=
    SharedCall.hashed_function (lampCall_item power) rfl (lampCall_bound power)
  have hhashed' : (lampCall power').hashed = lamp.hashed (lampMap power) .native unoptimized := by
    rw [SharedCall.hashed_function (lampCall_item power') rfl (lampCall_bound power')]
    unfold Fragment.hashed
    rw [lamp_keyContent h h']
    rfl
  constructor
  · simp [lampCall, unoptimized, Options.default]
  · simp [lampCall, unoptimized, Options.default]
  · simpa [hhashed, hhashed'] using lamp_hashed_noCollision h

theorem lampCalls_agree (power power' : Float32) :
    SharedCall.Agree [lampCall power, lampCall power'] := by
  intro c hc c' hc' item item' hitem hitem' hkey
  simp only [mem_cons, not_mem_nil, or_false] at hc hc'
  rcases hc with rfl | rfl <;> rcases hc' with rfl | rfl <;> exact .refl item _

/-- Sessions in which a name stands for different functions get each other's code, and so do
sessions that agree on all names, but in whose stores a number differs that is not finite. -/
theorem shared_cache_leaks : let above := Float32.ofBits 0x7f800000
    let below := Float32.ofBits 0xff800000
    (SharedCall.Plain [toneCall 1 0, toneCall 2 0] ∧
      SharedCall.Finite [toneCall 1 0, toneCall 2 0] ∧
      SharedCall.Leaks (toneCall 1 0) (toneCall 2 0)
        [#[⟨.int, .int 1⟩]] [#[⟨.int, .int 2⟩]]) ∧
    (SharedCall.Plain [lampCall above, lampCall below] ∧ lamp.isFinite ∧
      SharedCall.Agree [lampCall above, lampCall below] ∧
      SharedCall.Leaks (lampCall above) (lampCall below)
        [#[⟨.int, .int 1⟩, ⟨.float, .float above⟩]]
        [#[⟨.int, .int 1⟩, ⟨.float, .float below⟩]]) := by
  intro above below
  have habove : ¬ Float32.finite above := by decide
  have hbelow : ¬ Float32.finite below := by decide
  constructor
  · have hkey : (toneCall 2 0).key (.function tone .lambda)
        = (toneCall 1 0).key (.function tone .lambda) := by
      rw [SharedCall.key_function (toneCall_bound 2 0),
        SharedCall.key_function (toneCall_bound 1 0)]
      rfl
    exact ⟨toneCalls_plain 1 2 0 0, toneCalls_finite 1 2 0 0,
      SharedCall.leaks_of_key (toneCall_item 1 0) (toneCall_item 2 0) rfl rfl hkey
        (toneCall_compiled 1 0) (toneCall_compiled 2 0) (by decide)⟩
  · have hkey : (lampCall below).key (.function lamp .lambda)
        = (lampCall above).key (.function lamp .lambda) := by
      rw [SharedCall.key_function (lampCall_bound below),
        SharedCall.key_function (lampCall_bound above)]
      exact congrArg (fun j : Json => Digest.ofText j.text) (lamp_keyContent hbelow habove)
    have hdiffer : ([#[⟨.int, .int 1⟩, ⟨.float, .float above⟩]] : List (Array Instr))
        ≠ [#[⟨.int, .int 1⟩, ⟨.float, .float below⟩]] := by
      have hne : above ≠ below := by decide
      simpa using hne
    exact ⟨lampCalls_plain habove hbelow, lamp_isFinite, lampCalls_agree above below,
      SharedCall.leaks_of_key (lampCall_item above) (lampCall_item below) rfl rfl hkey
        (lampCall_compiled above) (lampCall_compiled below) hdiffer⟩

end Shading
