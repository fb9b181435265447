import Shading.Proofs.Session.Origin

/-!
# Arguments of artifacts

An artifact comes with a block for the parameters of each function, filled with the values
that they had.  A parameter whose value could not be packed is named in a warning; every
other one is read back leaf by leaf, up to components of vectors that storage buffers have
no room for.  This holds for single functions, whether their code was compiled or taken from
a cache, and for units to which more is added later.

Main definitions:

- `CompileRequest.parameters` lists the parameters that a request sets at run time.
- `CodeParts.Takes` says that parts of an artifact have a place for parameters.
- `Artifact.Carries` says that parameters are read back from a block.
- `Delivers` says that an artifact is handed out for a request.

Main results:

- `Artifact.carries_of_assemble`: assembling fills a block with the values of parameters.
- `Call.exists_parts_of_answer` and `Delivers.exists_parts`: what artifacts that are handed out are
  assembled from.
- `arguments_are_read_back`: so their parameters are read back.
-/

namespace Shading

open List

/-! ## Parameters of requests -/

/-- The parameters that a request sets at run time.  Environment functions have none. -/
def UnitRequest.parameters : UnitRequest → List Parameter
  | .environment _ _ => []
  | .field m _ _ | .fields m _ _ | .distribution m _ _ => m.parameters
  | .fragment f => f.parameters

/-- The parameters that a request sets at run time. -/
def CompileRequest.parameters : CompileRequest → List Parameter
  | .unit r => r.parameters
  | .uniformField m _ _ _ => m.parameters

namespace Fragment

variable {m : Material} {f g : Fragment}

theorem parameters_ofField {path name : String} {compileConstants : Bool}
    (h : ofField m path name compileConstants = .ok f) : f.parameters = m.parameters := by
  unfold ofField at h
  split at h
  · cases h
  split at h
  · cases h
  · cases h
    rfl

/-- A fragment that takes in a field captures the parameters of its material. -/
theorem parameters_addField {path : String} {compileConstants : Bool} {index : Nat}
    (hf : f.parameters = [] ∨ f.parameters = m.parameters)
    (h : f.addField m path compileConstants = (g, .ok index)) : g.parameters = m.parameters := by
  have hcaptured : (if f.parameters.isEmpty then { f with parameters := m.parameters }
      else f).parameters = m.parameters := by
    split
    · rfl
    · rename_i hsome
      exact hf.resolve_left (by simpa using hsome)
  unfold addField at h
  split at h
  · cases h
  split at h
  · cases h
  dsimp only at h
  split at h
  · cases h
  split at h
  · cases h
  split at h
  · cases h
  · rename_i hroot
    cases h
    unfold addRoot at hroot
    split at hroot
    · cases hroot
    · cases hroot
      exact hcaptured

end Fragment

theorem Compilable.parameters_addFields {m : Material} {compileConstants : Bool}
    {paths : List String} {f g : Fragment} (hpaths : paths ≠ [])
    (hf : f.parameters = [] ∨ f.parameters = m.parameters)
    (h : addFields m compileConstants f paths = .ok g) : g.parameters = m.parameters := by
  induction paths generalizing f with
  | nil => exact absurd rfl hpaths
  | cons path rest ih =>
    unfold addFields at h
    split at h
    · cases h
    · rename_i next index hnext
      have hnext := Fragment.parameters_addField hf hnext
      cases rest with
      | nil =>
        cases h
        exact hnext
      | cons second rest => exact ih (cons_ne_nil _ _) (Or.inr hnext) h

/-- What a request builds has its parameters, unless it is an environment function. -/
theorem UnitRequest.parameters_of_build {r : UnitRequest} {lib : Library} {o : Options}
    {item : Compilable} (h : r.build lib o = .ok item) :
    item.parameters = r.parameters ∨
      r.parameters = [] ∧ ∃ f, item = .function f .environment := by
  cases UnitRequest.builds_of_build h with
  | @environment call name f hf => exact Or.inr ⟨rfl, f, rfl⟩
  | field hf => exact Or.inl (Fragment.parameters_ofField hf)
  | fields hf =>
    exact Or.inl (Compilable.parameters_addFields (cons_ne_nil _ _) (Or.inl rfl) hf)
  | distribution hd =>
    obtain ⟨_, _, hd⟩ := exists_of_bind_eq_ok hd
    obtain ⟨_, _, hd⟩ := exists_of_bind_eq_ok hd
    cases hd
    exact Or.inl rfl
  | fragment => exact Or.inl rfl

theorem CompileRequest.parameters_of_build {r : CompileRequest} {lib : Library} {o : Options}
    {item : Compilable} (hr : r.parameters ≠ []) (h : r.build lib o = .ok item) :
    item.parameters = r.parameters := by
  cases r with
  | unit r =>
    rcases UnitRequest.parameters_of_build h with h | ⟨hnone, -⟩
    · exact h
    · exact absurd hnone hr
  | uniformField m path name u =>
    obtain ⟨_, _, h⟩ := exists_of_bind_eq_ok h
    obtain ⟨f, hf, h⟩ := exists_of_bind_eq_ok h
    split at h
    · cases h
    · cases h
      exact (Fragment.parameters_ofField hf : f.parameters = m.parameters)

/-! ## Blocks of artifacts -/

namespace Artifact

/-- A warning says that a parameter of a block was left zeroed. -/
def LeftZeroed (a : Artifact) (k : Nat) (name : String) : Prop :=
  ∃ e : LayoutError,
    .warning (s!"argument '{name}' of block {k} left zeroed: " ++ e.message) ∈ a.messages

/-- The parameters have a block, and every leaf in the value of a parameter without a warning
is read back from it, if there is room for the leaf.  Resources are read back as indices into
the tables, and strings as their ids. -/
def Carries (a : Artifact) (parameters : List Parameter) (k : Nat) : Prop :=
  ∃ layout block, a.layouts[k]? = some layout ∧ a.blocks[k]? = some block ∧
    layout.names = parameters.map (·.name) ∧
    ∀ i p, parameters[i]? = some p → ¬a.LeftZeroed k p.name →
      ∀ path leaf, p.value.part? path = some leaf → leaf.kind.isCompound = false →
        p.type.hasRoomAlong a.target.rules path →
        ∃ d, LeafData.ofValue? a.indexResolver leaf = some d ∧
          layout.readLeaf? block (i :: path) Layout.root = some d

variable {p : CodeParts} {values : List (List Value)} {k : Nat} {layout : Layout}
  {parameters : List Parameter}

/-- A value that cannot be packed leaves a warning. -/
theorem leftZeroed_of_failed (hlayout : p.layouts[k]? = some layout) {i : Nat} {name : String}
    (hname : layout.names[i]? = some name)
    (hi : i ∈ (layout.fillPartial p.indexResolver (values[k]?.getD []) layout.newBlock).1.map
      Prod.fst) : (assemble p values).LeftZeroed k name := by
  obtain ⟨⟨i, e⟩, hfailed, rfl⟩ := mem_map.mp hi
  refine ⟨e, mem_append_right _ (mem_flatMap.mpr
    ⟨fillBlock p k layout (values[k]?.getD []), ?_, ?_⟩)⟩
  · exact mem_map.mpr ⟨(layout, k), mem_of_getElem? (i := k)
      (by simp [getElem?_zipIdx, hlayout]), rfl⟩
  · refine mem_map.mpr ⟨(i, e), hfailed, ?_⟩
    dsimp only at hname ⊢
    rw [hname]
    rfl

/-- Assembling fills the block of a layout with the values of the parameters that it was
built for. -/
theorem carries_of_assemble (hlayout : p.layouts[k]? = some layout)
    (hbuild : Layout.build parameters p.target.rules = .ok layout)
    (hvalues : values[k]? = some (parameters.map (·.value))) :
    (assemble p values).Carries parameters k := by
  have hnames : layout.names = parameters.map (·.name) := by
    unfold Layout.build at hbuild
    split at hbuild
    · cases hbuild
    · cases hbuild
      rfl
  refine ⟨layout, _, hlayout, block_of_assemble hlayout, hnames, ?_⟩
  intro i q hq hwarning path leaf hpart hleaf hroom
  rw [hvalues, Option.getD_some]
  have hpacked : i ∉ (layout.fillPartial p.indexResolver (parameters.map (·.value))
      layout.newBlock).1.map Prod.fst := by
    intro hi
    refine hwarning (leftZeroed_of_failed hlayout (i := i) ?_ ?_)
    · rw [hnames, getElem?_map, hq]
      rfl
    · rwa [hvalues]
  have hvalue : (parameters.map (·.value))[i]? = some q.value := by
    rw [getElem?_map, hq]
    rfl
  obtain ⟨q', address, offset, mid, mid', hq', hp⟩ :=
    Layout.exists_parameterPacked hbuild hvalue hpacked
  cases hq.symm.trans hq'
  exact hp.readLeaf? hroom hpart hleaf

end Artifact

/-- Parts of an artifact have what the parameters at an index take: a layout, their values, and
ids for the strings in the values if strings have ids. -/
structure CodeParts.Takes (p : CodeParts) (values : List (List Value))
    (parameters : List Parameter) (k : Nat) (l : Layout) : Prop where
  layout : p.layouts[k]? = some l
  build : Layout.build parameters p.target.rules = .ok l
  values : values[k]? = some (parameters.map (·.value))
  strings : p.stringsMapped = true → ∀ text ∈ (parameters.map (·.value)).flatMap Value.strings,
    ∃ id, stringId? p.strings text = some id

/-! ## Single functions -/

namespace Compilation

variable {c d : Compilation} {s : Surroundings} {item : Compilable}

/-- An item with parameters that compiles is given the first index that is free. -/
theorem index_of_compile {index : Option Nat} (hparameters : item.parameters ≠ [])
    (h : c.compile s item = (.ok index, d)) : index = some c.layouts.length := by
  obtain ⟨layout, rfl, hextended⟩ := compile_extended h
  rw [hextended.index_eq, if_neg hparameters]

/-- The strings in the values of parameters get ids, which they keep while the item is
lowered. -/
theorem stringId?_of_compile {k : Nat} (h : c.compile s item = (.ok (some k), d))
    (hmap : c.options.mapStringsToIds = true) {text : String}
    (htext : text ∈ item.argumentStrings) :
    ∃ id, stringId? d.assembly.pool.strings text = some id := by
  obtain ⟨layout, assembly, -, hindex, hlower, rfl⟩ := compile_eq_ok_iff.mp h
  obtain ⟨l, rfl, -⟩ := Option.map_eq_some_iff.mp hindex.symm
  obtain ⟨new, pool, usage, rfl, hadds⟩ :=
    lowerItem_adds (fun f _ => supplied_source f.graph _) hlower
  have hdeclared : (c.declareBlock item (some l)).2.pool.strings
      = internStrings c.assembly.pool.strings item.argumentStrings := by
    unfold declareBlock
    rw [if_pos hmap]
    rfl
  obtain ⟨id, hid⟩ := @stringId?_internStrings c.assembly.pool.strings _ _ htext
  rw [← hdeclared] at hid
  exact ⟨id, stringId?_of_grows hadds.pool.grows.strings hid⟩

end Compilation

namespace Call

variable [ShaderCheck] {lib : Library} {call : Call} {item : Compilable} {a : Artifact}

/-- What an item with parameters compiles to has a place for them. -/
theorem exists_parts_of_compiled (hparameters : item.parameters ≠ [])
    (h : call.compiled lib item = .ok a) :
    ∃ p values layout, a = Artifact.assemble p values ∧ p.target = call.backend.target ∧
      p.Takes values item.parameters 0 layout := by
  obtain ⟨index, d, -, hcompile, hfinish⟩ := Session.compileFresh_eq_ok h
  obtain rfl := Compilation.index_of_compile hparameters hcompile
  obtain ⟨l, hbuild, hlayout, hvalues⟩ := Compilation.block_of_compile
    (Compilation.start_balanced _ _ _) hcompile (.refl d)
  obtain ⟨layout, -, hextended⟩ := Compilation.compile_extended hcompile
  obtain ⟨-, code, -, rfl⟩ := Compilation.finish_eq_ok hfinish
  refine ⟨_, _, l, rfl, hextended.target, hlayout, hbuild, hvalues, ?_⟩
  intro hmapped text htext
  have hmapped : d.options.mapStringsToIds = true := hmapped
  rw [hextended.options] at hmapped
  exact Compilation.stringId?_of_compile hcompile hmapped htext

/-- The answer to a call has a place for the parameters of the call, whether its code was
compiled or taken from a cache. -/
theorem exists_parts_of_answer {calls : List SharedCall} {c : SharedCall}
    (hhashes : Digest.NoCollision (calls.flatMap SharedCall.hashed)) (hc : c ∈ calls)
    {cache : Cache Digest CachedCode} (hcache : SharedCall.Genuine calls cache)
    (hparameters : c.call.request.parameters ≠ []) (h : (c.answer cache).1 = .ok a) :
    ∃ p values layout, a = Artifact.assemble p values ∧
      p.Takes values c.call.request.parameters 0 layout := by
  obtain ⟨item, hitem, horigin⟩ := SharedCall.origin_of_answer hhashes hc hcache h
  have hsame := CompileRequest.parameters_of_build hparameters hitem
  rw [← hsame] at hparameters ⊢
  rcases horigin with hcompiled | ⟨call', item', a', ha', hdeclared, htarget, -, rfl⟩
  · obtain ⟨p, values, layout, ha, -, htakes⟩ := exists_parts_of_compiled hparameters hcompiled
    exact ⟨p, values, layout, ha, htakes⟩
  · -- The layout was built for another item, whose parameters are declared alike.
    have hparameters' : item'.parameters ≠ [] := by
      intro hnone
      rw [hnone] at hdeclared
      exact hparameters (map_eq_nil_iff.mp hdeclared)
    obtain ⟨p, values, layout, rfl, htarget', htakes⟩ := exists_parts_of_compiled hparameters' ha'
    have hbuild := htakes.build
    rw [htarget', htarget, Layout.build_congr hdeclared.symm] at hbuild
    refine ⟨_, _, layout, rfl, ?_, hbuild, rfl, ?_⟩
    · change p.layouts.head?.toList[0]? = some layout
      rw [head?_eq_getElem?, htakes.layout]
      rfl
    · intro hmapped text htext
      dsimp only at hmapped ⊢
      rw [if_pos hmapped]
      exact stringId?_internStrings htext

end Call

/-! ## Artifacts that are handed out -/

/-- How an artifact is handed out for a request, with the index of the block for its
parameters.  A session that started with an empty cache answers a call with it; or a unit
served requests, served this one with success, served further ones and was closed.  The
surroundings may change from request to request. -/
inductive Delivers [ShaderCheck] (r : CompileRequest) (a : Artifact) : (k : Nat) → Prop
  | answer {lib : Library} {cache : Cache Digest CachedCode} {calls : List Call} {n : Nat}
      {call : Call} (hempty : cache.entries = [])
      (hhashes : Digest.NoCollision (calls.flatMap fun call => call.hashed lib))
      (hcall : calls[n]? = some call) (hr : call.request = r) (hparameters : r.parameters ≠ [])
      (hanswer : (Session.answers lib cache calls)[n]? = some (.ok a)) : Delivers r a 0
  | unit {b : Backend} {before later : List (Surroundings × UnitRequest)} {s : Surroundings}
      {q : UnitRequest} {k : Nat} {u closed : LinkUnit} (hr : r = .unit q)
      (hadd : ((LinkUnit.create b).serve before).request s q = (.ok (some k), u))
      (hclose : b.closeUnit (u.serve later) = (.ok a, closed)) : Delivers r a k

/-- What an artifact that is handed out for a request was assembled from. -/
theorem Delivers.exists_parts [ShaderCheck] {r : CompileRequest} {a : Artifact} {k : Nat}
    (h : Delivers r a k) :
    ∃ p values l, a = Artifact.assemble p values ∧ p.Takes values r.parameters k l := by
  cases h with
  | answer hempty hhashes hcall hr hparameters hanswer =>
    subst hr
    obtain ⟨cache, hgenuine, h⟩ := Session.exists_answer hempty hcall hanswer
    exact Call.exists_parts_of_answer hhashes.shared (mem_map_of_mem (mem_of_getElem? hcall))
      hgenuine hparameters h
  | @unit b before later s q _ u closed hr hadd hclose =>
    subst hr
    obtain ⟨c, d, item, hopen, hc, hbuild, hrefusal, hcompile, hu, hd⟩ :=
      LinkUnit.compile_of_request hadd
    obtain ⟨e, he, hfinish⟩ := Backend.finish_of_closeUnit hclose
    obtain ⟨-, code, -, rfl⟩ := Compilation.finish_eq_ok hfinish
    obtain ⟨hgrows, -⟩ := LinkUnit.serve_grows hu hd later he
    obtain ⟨-, hpool⟩ := LinkUnit.serve_extends hu hd later he
    obtain ⟨l, hlayout, hl, hvalues⟩ := Compilation.block_of_compile hc hcompile hgrows
    have hsettled := (Backend.Builds.unit hopen).settled
    have hsame : item.parameters = q.parameters := by
      rcases UnitRequest.parameters_of_build hbuild with hsame | ⟨hnone, f, rfl⟩
      · exact hsame
      · rw [hnone]
        exact Compilation.parameters_of_environment hrefusal
    have hoptions : c.options = e.options := by
      rw [hsettled.options] at hbuild ⊢
      exact (Backend.Includes.unit hbuild hadd he).builds.settled.options.symm
    refine ⟨_, _, l, rfl, ?_⟩
    change (e.parts e.assembly.finish code).Takes e.blockValues q.parameters k l
    rw [← hsame]
    refine ⟨hl, hlayout, hvalues, fun hmapped text htext => ?_⟩
    have hmapped : e.options.mapStringsToIds = true := hmapped
    rw [← hoptions] at hmapped
    obtain ⟨id, hid⟩ := Compilation.stringId?_of_compile hcompile hmapped htext
    exact ⟨id, stringId?_of_grows hpool.grows.strings hid⟩

/-- A parameter of an artifact without a warning is read back from the block. -/
theorem arguments_are_read_back [ShaderCheck] (r : CompileRequest) (a : Artifact) (k : Nat)
    (h : Delivers r a k) : a.Carries r.parameters k := by
  obtain ⟨p, values, l, rfl, htakes⟩ := h.exists_parts
  exact Artifact.carries_of_assemble htakes.layout htakes.build htakes.values

/-- A material with a vector of five numbers and a number after it. -/
def ribbon : Material where
  name := "ribbon"
  graph := ⟨#[⟨.parameter 0, .vector .int 5⟩, ⟨.parameter 1, .int⟩]⟩
  fields := (OrderedMap.empty.insert "wide" 0).insert "after" 1
  parameters := [
    ⟨"wide", .vector .int 5, .vector [.int 1, .int 2, .int 3, .int 4, .int 5]⟩,
    ⟨"after", .int, .int 6⟩]

/-- Listings for storage buffers. -/
def listingBackend : Backend :=
  ⟨.gpu, { Options.default with outputFormat := .portableIr }, true⟩

/-- The fifth component of the vector is where the number after it is. -/
def ribbonLayout : Layout where
  nodes := #[⟨.struct, 0, 32, 1, 2⟩, ⟨.vector, 0, 16, 3, 5⟩, ⟨.int, 16, 4, 8, 0⟩,
    ⟨.int, 0, 4, 8, 0⟩, ⟨.int, 4, 4, 8, 0⟩, ⟨.int, 8, 4, 8, 0⟩, ⟨.int, 12, 4, 8, 0⟩,
    ⟨.int, 16, 4, 8, 0⟩]
  rules := .gpuStorage
  names := ["wide", "after"]

/-- The block that the values of the material are packed into. -/
def ribbonBlock : Bytes :=
  [1, 0, 0, 0, 2, 0, 0, 0, 3, 0, 0, 0, 4, 0, 0, 0, 6, 0, 0, 0, 0, 0, 0, 0, 0, 0, 0, 0, 0, 0, 0, 0]

theorem ribbon_fillPartial (r : IndexResolver) :
    ribbonLayout.fillPartial r ribbon.argumentValues ribbonLayout.newBlock = ([], ribbonBlock) := by
  cbv

/-- A field of the material is compiled into a unit without a warning. -/
theorem ribbon_delivered :
    ∃ a, Delivers (.unit (.field ribbon "after" "f")) a 0 ∧ a.target = .gpu ∧ a.messages = [] ∧
      a.layouts = [ribbonLayout] ∧ a.blocks = [ribbonBlock] := by
  have hadd : ((LinkUnit.create listingBackend).request oneTexture
      (.field ribbon "after" "f")).1 = .ok (some 0) := by
    cbv
  have hparts : ((LinkUnit.create listingBackend).request oneTexture
      (.field ribbon "after" "f")).2.compilation.map (fun d => (d.target, d.options.outputFormat,
        d.functions.isEmpty, d.messages, d.layouts, d.blockValues))
      = some (.gpu, .portableIr, false, [], [ribbonLayout], [ribbon.argumentValues]) := by
    cbv
  obtain ⟨d, hd, hparts⟩ := Option.map_eq_some_iff.mp hparts
  simp only [Prod.mk.injEq] at hparts
  obtain ⟨htarget, hformat, hfunctions, hmessages, hlayouts, hvalues⟩ := hparts
  obtain ⟨code, hfinish⟩ : ∃ code, d.finish
      = .ok (Artifact.assemble (d.parts d.assembly.finish code) d.blockValues) := by
    refine ⟨_, Compilation.finish_eq_ok_iff.mpr ⟨hfunctions, d.assembly.finish.emitPortable
      .portableIr, Program.emitChecked_eq_ok_iff.mpr ⟨?_, fun _ => rfl⟩, rfl⟩⟩
    rw [htarget, hformat]
    rfl
  have hclose : listingBackend.closeUnit ((LinkUnit.create listingBackend).request oneTexture
      (.field ribbon "after" "f")).2
        = (.ok (Artifact.assemble (d.parts d.assembly.finish code) d.blockValues), ⟨none⟩) := by
    unfold Backend.closeUnit
    rw [hd]
    dsimp only
    rw [htarget, hfinish]
    rfl
  have hdelivers := @Delivers.unit _ _ _ listingBackend [] [] oneTexture _ 0 _ _ rfl
    (Prod.ext hadd rfl) hclose
  refine ⟨_, hdelivers, htarget, ?_, hlayouts, ?_⟩
  · simp [Artifact.assemble, Compilation.parts, hlayouts, hvalues, hmessages, Artifact.fillBlock,
      ribbon_fillPartial]
  · simp [Artifact.assemble, Compilation.parts, hlayouts, hvalues, Artifact.fillBlock,
      ribbon_fillPartial]

/-- Four components of the vector and the number after it are read back. -/
theorem arguments_are_read_back_ribbon :
    ∃ a, Delivers (.unit (.field ribbon "after" "f")) a 0 ∧ a.messages = [] ∧
      ∃ layout block, a.layouts[0]? = some layout ∧ a.blocks[0]? = some block ∧
        layout.readLeaf? block [0, 3] Layout.root = some (.int 4) ∧
        layout.readLeaf? block [1] Layout.root = some (.int 6) := by
  obtain ⟨a, hdelivers, htarget, hmessages, -, -⟩ := ribbon_delivered
  obtain ⟨layout, block, hlayout, hblock, -, hread⟩ := arguments_are_read_back _ a 0 hdelivers
  have hsilent : ∀ name, ¬a.LeftZeroed 0 name := by
    rintro name ⟨e, hmem⟩
    rw [hmessages] at hmem
    cases hmem
  rw [htarget] at hread
  obtain ⟨d, hd, hfourth⟩ := hread 0 _ rfl (hsilent _) [3] _ rfl rfl rfl
  obtain ⟨d', hd', hafter⟩ := hread 1 _ rfl (hsilent _) [] _ rfl rfl rfl
  cases hd
  cases hd'
  exact ⟨a, hdelivers, hmessages, layout, block, hlayout, hblock, hfourth, hafter⟩

/-- The fifth component of the vector is read as the number after it, and no warning says
so. -/
theorem arguments_run_over :
    ribbon.check = .ok () ∧ (ribbon.argumentValues[0]?.bind (Value.part? [4])) = some (.int 5) ∧
      ∃ a, Delivers (.unit (.field ribbon "after" "f")) a 0 ∧ a.messages = [] ∧
        ∃ layout block, a.layouts[0]? = some layout ∧ a.blocks[0]? = some block ∧
          layout.readLeaf? block [0, 4] Layout.root = some (.int 6) := by
  obtain ⟨a, hdelivers, -, hmessages, hlayouts, hblocks⟩ := ribbon_delivered
  have hcheck : ribbon.check = .ok () := by
    cbv
  refine ⟨hcheck, rfl, a, hdelivers, hmessages, ribbonLayout, ribbonBlock, ?_, ?_, ?_⟩
  · rw [hlayouts]
    rfl
  · rw [hblocks]
    rfl
  · cbv

end Shading
