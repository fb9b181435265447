import Shading.Proofs.Lowering.Occurrence
import Shading.Proofs.Session.Arguments

/-!
# String ids of artifacts

If strings have ids, then literals and argument blocks hold the ids of their strings, and the
table of an artifact has every string at its id.  A string may get its id when the parameters of
an item are declared, when a literal is lowered, or after code was taken from a cache; the table
only ever grows, so an id that was given out stays good.

Main definitions:

- `Tidy` says that a table has each string once, the empty string first.
- `Spells` says that a string is at its id.
- `Artifact.SpellsLiterals` and `Artifact.SpellsArguments` say that the ids in code and in argument
  blocks lead to their strings.

Main results:

- `DataPool.Reaches.tidy`: tables stay tidy.
- `Generated.spellsLiterals` and `Delivers.spellsArguments`: ids in code and in blocks.
- `string_ids_decode`: all of this, for every artifact that is handed out.
-/

namespace Shading

open List

/-! ## String tables -/

/-- A table with each string once, and the empty string first. -/
structure Tidy (table : List String) : Prop where
  nodup : table.Nodup
  first : table ≠ [] → table.head? = some ""

theorem stringId?_eq_none_iff {table : List String} {s : String} :
    stringId? table s = none ↔ s ∉ table := by
  unfold stringId?
  rw [findIdx?_eq_none_iff]
  constructor
  · intro h hs
    simpa using h s hs
  · intro h x hx
    have hne : x ≠ s := by
      rintro rfl
      exact h hx
    simpa using hne

/-- A string is at its id. -/
theorem getElem?_of_stringId? {table : List String} {s : String} {n : Nat}
    (h : stringId? table s = some n) : table[n]? = some s := by
  unfold stringId? at h
  obtain ⟨hn, heq, -⟩ := findIdx?_eq_some_iff_getElem.mp h
  rw [getElem?_eq_getElem hn]
  simpa using heq

namespace Tidy

variable {table : List String}

theorem nil : Tidy [] :=
  ⟨nodup_nil, fun h => absurd rfl h⟩

/-- A table that is not in use yet starts with the empty string. -/
theorem internString (h : Tidy table) (s : String) : Tidy (internString table s).2 := by
  unfold Shading.internString
  have hused : ∃ rest, (if table.isEmpty then [""] else table) = "" :: rest ∧
      ("" :: rest).Nodup := by
    cases table with
    | nil => exact ⟨[], rfl, nodup_singleton _⟩
    | cons first rest =>
      have hfirst : first = "" := Option.some.inj (h.first (cons_ne_nil _ _))
      subst hfirst
      exact ⟨rest, rfl, h.nodup⟩
  obtain ⟨rest, hrest, hnodup⟩ := hused
  dsimp only
  rw [hrest]
  split
  · exact ⟨hnodup, fun _ => rfl⟩
  · rename_i hnone
    refine ⟨?_, fun _ => rfl⟩
    rw [← concat_eq_append]
    exact hnodup.concat (stringId?_eq_none_iff.mp hnone)

theorem internStrings (h : Tidy table) (strings : List String) :
    Tidy (internStrings table strings) := by
  induction strings generalizing table with
  | nil => exact h
  | cons s strings ih => exact ih (h.internString s)

end Tidy

/-- Tables stay tidy while strings and data are added. -/
theorem DataPool.Reaches.tidy {p q : DataPool} (h : p.Reaches q) (hp : Tidy p.strings) :
    Tidy q.strings := by
  induction h with
  | refl => exact hp
  | intern text _ ih => exact ih.internString text
  | addBytes piece _ ih =>
    unfold DataPool.addBytes
    split <;> exact ih

/-! ## Strings in code -/

/-- A string is at an id.  Nothing is said of other literals. -/
def Spells (table : List String) (v : Value) (n : Nat) : Prop :=
  ∀ text, v = .string text → table[n]? = some text

/-- The ids that lowering takes lead to the strings, also in tables that go on from there. -/
theorem LowerEnv.Handle.spells {env : LowerEnv} {table longer : List String} {v : Value} {n : Nat}
    (h : env.Handle table v n) (hmap : env.options.mapStringsToIds = true)
    (hlonger : table <+: longer) : Spells longer v n := by
  rintro text rfl
  have hid := handle?_of_grows hlonger (h (.inl hmap))
  simp only [IndexResolver.handle?, indexResolver, hmap, if_true] at hid
  exact getElem?_of_stringId? hid

/-- The ids of strings in the code of an artifact lead to the strings in its table. -/
structure Artifact.SpellsLiterals (a : Artifact) (c : Compilation) : Prop where
  /-- A literal that is lowered on the way to the compile holds the ids of its strings. -/
  written : ∀ (env : LowerEnv) (v : Value) (t : ValueType) (start done : LowerState) (id : Nat),
    env.options.mapStringsToIds = true → DataPool.empty.Reaches start.pool →
    (lowerConstant env v t).run start = (.ok id, done) → done.pool.Reaches c.assembly.pool →
    Encoded env.rules (Spells a.strings) done.body a.roSegment v t id
  /-- Every literal of an item in the compile stands in a routine with the ids of its strings. -/
  standing : ∀ (b : Backend) (s : Surroundings) (item : Compilable) (v : Value),
    b.Includes c s item → item.Lowers s.library v →
    ∃ (raw : Routine) (t : ValueType) (id : Nat),
      raw.optimize c.options.optLevel c.options.fastMath ∈ c.assembly.finish.routines ∧
        Encoded c.target.rules (Spells a.strings) raw.body a.roSegment v t id

/-- A literal of an item in a compile stands in one of the routines. -/
theorem Backend.Includes.holds {b : Backend} {c : Compilation} {s : Surroundings}
    {item : Compilable} {v : Value} (h : b.Includes c s item) (hv : item.Lowers s.library v) :
    ∃ env : LowerEnv, env.options = b.options ∧ env.rules = b.target.rules ∧
      ∃ r ∈ c.assembly.routines, r.Holds env c.assembly.pool v := by
  obtain ⟨before, after, index, hsettled, hcompile, hroutines, hpool⟩ := h.exists_compile
  obtain ⟨layout, assembly, -, -, hlower, rfl⟩ := Compilation.compile_eq_ok_iff.mp hcompile
  have hsound := hsettled.pool.sound DataPool.empty_sound
  obtain ⟨pool, hreaches, hframe⟩ := before.declareBlock_frame item layout
  have hdeclared : (before.declareBlock item layout).2.pool.Sound := by
    rw [hframe]
    exact hreaches.sound hsound
  obtain ⟨env, hoptions, hrules, r, hr, hholds⟩ :=
    Compilation.lowerItem_holds hdeclared hlower hv
  refine ⟨env, hoptions.trans hsettled.options, ?_, r, hroutines.subset hr, hholds.of_reaches hpool⟩
  rw [hrules]
  exact congrArg TargetKind.rules hsettled.target

namespace Generated

variable [ShaderCheck] {b : Backend} {a : Artifact} {c : Compilation}

theorem stringsMapped (h : Generated b a c) : a.stringsMapped = b.options.mapStringsToIds := by
  cases h with
  | fresh hbuilds hfinish =>
    obtain ⟨-, code, -, rfl⟩ := Compilation.finish_eq_ok hfinish
    exact congrArg Options.mapStringsToIds hbuilds.settled.options
  | restored hbuilds hfinish htarget hoptions ha =>
    subst ha
    rfl

/-- The table of an artifact is that of the compile, to which strings of arguments may have been
added. -/
theorem exists_strings (h : Generated b a c) :
    ∃ more, a.strings = internStrings c.assembly.pool.strings more := by
  cases h with
  | fresh hbuilds hfinish =>
    obtain ⟨-, code, -, rfl⟩ := Compilation.finish_eq_ok hfinish
    exact ⟨[], rfl⟩
  | @restored b' a' tables item hbuilds hfinish htarget hoptions ha =>
    obtain ⟨-, code, -, rfl⟩ := Compilation.finish_eq_ok hfinish
    subst ha
    by_cases hmap : b.options.mapStringsToIds
    · exact ⟨item.argumentStrings, if_pos hmap⟩
    · exact ⟨[], if_neg hmap⟩

theorem tidy (h : Generated b a c) : Tidy a.strings := by
  obtain ⟨b', hsettled, -, -⟩ := h.settled
  obtain ⟨more, hmore⟩ := h.exists_strings
  rw [hmore]
  exact (hsettled.pool.tidy .nil).internStrings more

/-- The ids of strings in code lead to the strings, whether the code was compiled for the
artifact or restored. -/
theorem spellsLiterals (h : Generated b a c) (hmap : b.options.mapStringsToIds = true) :
    a.SpellsLiterals c := by
  obtain ⟨b', hsettled, -, hsame⟩ := h.settled
  obtain ⟨more, hmore⟩ := h.exists_strings
  obtain ⟨code, -, -, hdata⟩ := h.exists_emitted
  have hdata : a.roSegment = c.assembly.pool.bytes := hdata
  have hstrings : c.assembly.pool.strings <+: a.strings := by
    rw [hmore]
    exact internStrings_grows _ more
  have hmapped : c.options.mapStringsToIds = true := by
    rw [hsettled.options, hsame]
    exact hmap
  constructor
  · intro env v t start done id hids hstart hrun hdone
    have hencoded := lowerConstant_encoded v t (hstart.sound DataPool.empty_sound) id done hrun
      (prefix_refl _)
    rw [hdata]
    refine (hencoded.of_longer (Extends.refl _) hdone.bytes).mono fun hn => ?_
    exact hn.spells hids (hdone.grows.strings.trans hstrings)
  · intro b'' s item v hincludes hv
    obtain ⟨env, hoptions, hrules, r, hr, raw, t, id, rfl, hencoded⟩ := hincludes.holds hv
    have hsettled'' := hincludes.builds.settled
    rw [← hsettled''.options] at hoptions
    rw [← hsettled''.target] at hrules
    rw [hoptions] at hr
    rw [hrules] at hencoded
    refine ⟨raw, t, id, hr, ?_⟩
    rw [hdata]
    exact hencoded.mono fun hn => hn.spells (hoptions ▸ hmapped) hstrings

end Generated

/-! ## Strings in argument blocks -/

/-- The parameters have a block.  No value was left out of it for a string without an id, and every
string in a value that was packed is read back as an id, at which the table has the string. -/
def Artifact.SpellsArguments (a : Artifact) (parameters : List Parameter) (k : Nat) : Prop :=
  ∃ layout block, a.layouts[k]? = some layout ∧ a.blocks[k]? = some block ∧
    (∀ i what, (i, .unsupported what) ∉ (layout.fillPartial a.indexResolver
      (parameters.map (·.value)) layout.newBlock).1) ∧
    ∀ i p path text, parameters[i]? = some p →
      i ∉ (layout.fillPartial a.indexResolver (parameters.map (·.value))
        layout.newBlock).1.map Prod.fst →
      p.value.part? path = some (.string text) →
      ∃ n, a.strings[n]? = some text ∧
        layout.readLeaf? block (i :: path) Layout.root = some (.string (UInt32.ofNat n))

/-- Assembling writes the ids of strings into a block. -/
theorem CodeParts.Takes.spellsArguments {p : CodeParts} {values : List (List Value)}
    {parameters : List Parameter} {k : Nat} {l : Layout} (h : p.Takes values parameters k l)
    (hmapped : p.stringsMapped = true) :
    (Artifact.assemble p values).SpellsArguments parameters k := by
  have hresolves : p.indexResolver.Resolves (Value.flattenAll (parameters.map (·.value))) := by
    intro text htext
    obtain ⟨v, hv, hmem⟩ := Value.mem_flattenAll.mp htext
    obtain ⟨id, hid⟩ :=
      h.strings hmapped text (mem_flatMap.mpr ⟨v, hv, Value.mem_strings.mpr hmem⟩)
    exact ⟨id, by simp [CodeParts.indexResolver, hmapped, hid]⟩
  refine ⟨l, _, h.layout, Artifact.block_of_assemble h.layout, ?_, ?_⟩
  · intro i what
    exact Layout.fillPartial_supported h.build hresolves l.newBlock
  · intro i q path text hq hpacked hpart
    have hvalue : (parameters.map (·.value))[i]? = some q.value := by
      rw [getElem?_map, hq]
      rfl
    obtain ⟨n, hn, hread⟩ :=
      Layout.readReference_of_fillPartial h.build hvalue hpacked hpart rfl
    rw [h.values, Option.getD_some]
    refine ⟨n, ?_, hread⟩
    have hn : (if p.stringsMapped = true then stringId? p.strings text else none) = some n := hn
    rw [if_pos hmapped] at hn
    exact getElem?_of_stringId? hn

/-- The table of a hit is the beginning of the table of the artifact that is restored. -/
theorem Call.strings_of_hit [ShaderCheck] {call : Call} {lib : Library}
    {cache : Cache Digest CachedCode}
    {item : Compilable} {hit : CachedCode} {a : Artifact} (hitem : call.item lib = .ok item)
    (huse : call.backend.useCache = true) (hfind : cache.find? (call.key lib item) = some hit)
    (h : (call.answer lib cache).1 = .ok a) : hit.strings <+: a.strings := by
  rw [answer_hit hitem huse hfind] at h
  cases h
  change hit.strings <+: if call.backend.options.mapStringsToIds then
    internStrings hit.strings item.argumentStrings else hit.strings
  split
  · exact internStrings_grows _ _
  · exact prefix_refl _

/-- String ids lead to their strings.  An artifact is handed out by a backend for which strings
have ids: for a unit, failed requests among those that it served, or for a single function, whose
code was compiled or restored from a cache.  Then its table has each string once, and the empty
string first; the code has the ids of the strings in literals; the argument blocks have the ids of
the strings in the values of parameters, none of which was left out for want of an id; and the
table of a hit in the cache is the beginning of the table. -/
theorem string_ids_decode [ShaderCheck] {b : Backend} {a : Artifact} (h : HandedOut b a)
    (hmap : b.options.mapStringsToIds = true) :
    Tidy a.strings ∧
    ((∃ c, Generated b a c) ∧ ∀ c, Generated b a c → a.SpellsLiterals c) ∧
    (∀ r k, Delivers r a k → a.SpellsArguments r.parameters k) ∧
    ∀ (lib : Library) (cache : Cache Digest CachedCode) (call : Call) (item : Compilable)
      (hit : CachedCode), call.item lib = .ok item → call.backend.useCache = true →
      cache.find? (call.key lib item) = some hit → (call.answer lib cache).1 = .ok a →
      hit.strings <+: a.strings := by
  obtain ⟨c, hgenerated⟩ := h.exists_generated
  have hmapped : a.stringsMapped = true := hgenerated.stringsMapped.trans hmap
  refine ⟨hgenerated.tidy, ⟨⟨c, hgenerated⟩, fun c hc => hc.spellsLiterals hmap⟩, ?_, ?_⟩
  · intro r k hdelivers
    obtain ⟨p, values, l, rfl, htakes⟩ := hdelivers.exists_parts
    exact htakes.spellsArguments hmapped
  · intro lib cache call item hit hitem huse hfind hanswer
    exact Call.strings_of_hit hitem huse hfind hanswer

/-- A function with a string as a literal and one as the value of its parameter. -/
def plaque (name text argument : String) : Fragment :=
  { Fragment.empty name .core with
    graph := ⟨#[⟨.constant (.string text), .string⟩]⟩
    roots := some (.single 0)
    parameters := [⟨"tag", .string, .string argument⟩] }

/-- Code for the host with ids for strings. -/
def plaqueBackend : Backend :=
  ⟨.native, { Options.default with mapStringsToIds := true }, true⟩

/-- Two functions that share a string, which is a literal of one and an argument of the other. -/
def plaqueRequests : List (Surroundings × UnitRequest) :=
  [(oneTexture, .fragment (plaque "f" "oak" "elm")),
    (oneTexture, .fragment (plaque "g" "elm" "pine"))]

/-- The literal of the first function and the argument of the second one lead to their strings. -/
theorem string_ids_decode_plaques :
    ∃ a c, HandedOut plaqueBackend a ∧ Generated plaqueBackend a c ∧
      a.strings = ["", "elm", "oak", "pine"] ∧ a.blocks = [[1, 0, 0, 0], [3, 0, 0, 0]] ∧
      Tidy a.strings ∧ a.SpellsArguments (plaque "g" "elm" "pine").parameters 1 ∧
      ∃ (raw : Routine) (t : ValueType) (id : Nat),
        raw.optimize c.options.optLevel c.options.fastMath ∈ c.assembly.finish.routines ∧
          Encoded c.target.rules (Spells a.strings) raw.body a.roSegment (.string "oak") t id := by
  have hfirst : ((LinkUnit.create plaqueBackend).request oneTexture
      (.fragment (plaque "f" "oak" "elm"))).1 = .ok (some 0) := by
    cbv
  have hlast : (((LinkUnit.create plaqueBackend).serve (plaqueRequests.take 1)).request oneTexture
      (.fragment (plaque "g" "elm" "pine"))).1 = .ok (some 1) := by
    cbv
  have hcode : (plaqueBackend.closeUnit ((LinkUnit.create plaqueBackend).serve
      plaqueRequests)).1.map (fun a => (a.strings, a.blocks))
        = .ok (["", "elm", "oak", "pine"], [[1, 0, 0, 0], [3, 0, 0, 0]]) := by
    cbv
  obtain ⟨a, hclose, hparts⟩ := exists_of_bind_eq_ok hcode
  obtain ⟨hstrings, hblocks⟩ := Prod.mk.inj (Except.ok.inj hparts)
  have hclosed : plaqueBackend.closeUnit ((LinkUnit.create plaqueBackend).serve plaqueRequests)
      = (.ok a, (plaqueBackend.closeUnit
        ((LinkUnit.create plaqueBackend).serve plaqueRequests)).2) :=
    Prod.ext hclose rfl
  have hhanded : HandedOut plaqueBackend a := .unit hclosed
  have hdelivers : Delivers (.unit (.fragment (plaque "g" "elm" "pine"))) a 1 :=
    @Delivers.unit _ _ _ plaqueBackend (plaqueRequests.take 1) [] oneTexture _ 1 _ _ rfl
      (Prod.ext hlast rfl) hclosed
  obtain ⟨c, hopen, hfinish⟩ := Backend.finish_of_closeUnit hclosed
  have hgenerated : Generated plaqueBackend a c := .fresh (.unit hopen) hfinish
  have hincludes : plaqueBackend.Includes c oneTexture
      (.function (plaque "f" "oak" "elm") .lambda) :=
    @Backend.Includes.unit _ _ _ _ [] (plaqueRequests.drop 1) _ (some 0) _ rfl
      (Prod.ext hfirst rfl) hopen
  obtain ⟨htidy, ⟨-, hliterals⟩, harguments, -⟩ := string_ids_decode hhanded rfl
  refine ⟨a, c, hhanded, hgenerated, hstrings, hblocks, htidy, harguments _ 1 hdelivers, ?_⟩
  exact (hliterals c hgenerated).standing _ _ _ _ hincludes
    (.constant (.root mem_cons_self) rfl)

end Shading
