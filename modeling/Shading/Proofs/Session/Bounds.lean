import Shading.Proofs.Fragment.Frame
import Shading.Proofs.Lowering.Assembly
import Shading.Proofs.Session.Run

/-!
# Programs stay in bounds

Every routine of a link unit is well formed and refers only to operands, texture spaces,
texture results, arguments and data that exist.  The bounds come from different places:
operands and texture accesses from lowering, offsets of arguments from layouts, offsets of
constants from the pool.  They are put together here and carried over whole runs of requests.

Main definitions:

- `Routine.InBounds` says what a routine may refer to.
- `UnitRequest.Validated` says that a request is about checked materials.
- `Compilation.Bounded` is the invariant of a compile.

Main results:

- Theorem `Compilation.compile_bounded`: adding an item keeps the invariant.
- Theorem `unit_programs_are_in_bounds`: the routines of a unit are in bounds after any
  requests.
-/

namespace Shading

open List

/-! ## Bounds -/

/-- A routine that refers only to what there is in a program with the given layouts of
argument blocks. -/
structure Routine.InBounds (p : Program) (layouts : List Layout) (rules : LayoutRules)
    (r : Routine) : Prop where
  operands : ∀ (i : Nat) (instr : Instr), r.body[i]? = some instr → ∀ a ∈ instr.op.operands, a < i
  results : ∀ id ∈ r.results, id < r.body.size
  stores : ∀ st ∈ r.stores, st.2 < r.body.size
  textureCoordinate : ∀ instr ∈ r.body, ∀ n, instr.op = .textureCoordinate n →
    n < p.numTextureSpaces
  textureResult : ∀ instr ∈ r.body, ∀ i, instr.op = .textureResult i → i < p.numTextureResults
  slots : ∀ st ∈ r.stores, st.1 < p.numTextureResults
  distinct : (r.stores.map Prod.fst).Nodup
  argLoad : ∀ instr ∈ r.body, ∀ block offset, instr.op = .argLoad block offset →
    r.argBlock = some block ∧ block < p.argBlocks.length ∧
      ∃ layout, layouts[block]? = some layout ∧ offset + instr.type.size rules ≤ layout.size
  roLoad : ∀ instr ∈ r.body, ∀ offset, instr.op = .roLoad offset →
    offset + instr.type.size rules ≤ p.roSegment.length

/-! ## Requests -/

/-- An item without parameters, or one whose parameter nodes have the types of its
parameters. -/
def Compilable.Typed (item : Compilable) : Prop :=
  item.parameters = [] ∨ ∀ f ∈ item.fragments, f.graph.ParametersFrom item.parameters

theorem Compilable.typed_of_reads {m : Material} {f : Fragment} {kind : FunctionKind}
    (h : f.ReadsParametersOf m) : (Compilable.function f kind).Typed := by
  rcases h.parameters with hnone | hall
  · exact Or.inl hnone
  · refine Or.inr fun g hg => ?_
    rw [mem_singleton.mp hg]
    change f.graph.ParametersFrom f.parameters
    rw [hall]
    exact h.nodes

/-- A request about materials that were checked; a fragment has to be built from one. -/
def UnitRequest.Validated : UnitRequest → Prop
  | .environment _ _ => True
  | .field m _ _ | .fields m _ _ | .distribution m _ _ => m.check = .ok ()
  | .fragment f => ∃ m, m.check = .ok () ∧ f.BuiltFrom m

theorem Compilable.addFields_reads {m : Material} (hm : m.graph.ParametersFrom m.parameters)
    {compileConstants : Bool} {f g : Fragment} {paths : List String}
    (hf : f.ReadsParametersOf m) (h : addFields m compileConstants f paths = .ok g) :
    g.ReadsParametersOf m := by
  induction paths generalizing f with
  | nil =>
    cases h
    exact hf
  | cons path rest ih =>
    have hadded := Fragment.addField_reads hm hf path compileConstants
    unfold addFields at h
    split at h
    · cases h
    · rename_i hfield
      rw [hfield] at hadded
      exact ih hadded h

/-- An environment function that is not refused has no parameters. -/
theorem Compilation.parameters_of_environment {c : Compilation} {f : Fragment}
    (h : c.refusal? (.function f .environment) = none) : f.parameters = [] := by
  unfold refusal? at h
  split at h
  · cases h
  dsimp only at h
  split at h
  · cases h
  · rename_i hcaptures
    simpa [Fragment.capturesParameters] using hcaptures

/-- What a validated request builds is well typed. -/
theorem UnitRequest.typed_of_build {r : UnitRequest} {lib : Library} {item : Compilable}
    {c : Compilation} (hvalid : r.Validated) (hbuild : r.build lib c.options = .ok item)
    (hrefusal : c.refusal? item = none) : item.Typed := by
  cases UnitRequest.builds_of_build hbuild with
  | environment hf => exact Or.inl (Compilation.parameters_of_environment hrefusal)
  | field hf =>
    exact Compilable.typed_of_reads
      (Fragment.ofField_reads (Material.parametersFrom_of_check hvalid) hf)
  | @fields m first rest name f hf =>
    refine Compilable.typed_of_reads (m := m) (Compilable.addFields_reads
      (Material.parametersFrom_of_check hvalid) ?_ hf)
    exact ⟨Or.inl rfl, Graph.forall_empty⟩
  | @distribution m path name d hd =>
    obtain ⟨hmain, haux⟩ := Distribution.ofMaterial_reads hvalid hd
    rcases hmain.parameters with hnone | hall
    · exact Or.inl hnone
    · refine Or.inr fun g hg => ?_
      change g.graph.ParametersFrom d.main.parameters
      rw [hall]
      rcases mem_cons.mp hg with rfl | hg
      · exact hmain.nodes
      · exact haux g hg
  | fragment =>
    obtain ⟨m, hm, hf⟩ := hvalid
    exact Compilable.typed_of_reads (hf.reads hm)

/-! ## Arguments -/

/-- A parameter lies inside the block. -/
theorem Layout.parameter?_of_build {parameters : List Parameter} {rules : LayoutRules}
    {l : Layout} (h : Layout.build parameters rules = .ok l) {index : Nat} {p : Parameter}
    (hp : parameters[index]? = some p) :
    ∃ e, l.parameter? index = some e ∧ e.offset + p.type.size rules ≤ l.size := by
  obtain ⟨_, hnodes⟩ := represents_of_build h
  have hsize : l.size = (ValueType.structShape rules (parameters.map (·.type))).size := by
    rw [← length_newBlock hnodes, newBlock, Bytes.zeros, length_replicate]
  have htype : (parameters.map (·.type))[index]? = some p.type := by
    rw [getElem?_map, hp]
    rfl
  have horderly := ValueType.pack_types_orderly rules (parameters.map (·.type))
  obtain ⟨offset, hoffset⟩ : ∃ offset, (Shading.pack ((parameters.map (·.type)).map
      (ValueType.extent rules))).offsets[index]? = some offset := by
    refine ⟨_, getElem?_eq_getElem ?_⟩
    rw [horderly.length_eq, length_map]
    exact (List.getElem?_eq_some_iff.mp htype).1
  obtain ⟨next, hnext, hpart⟩ := hnodes.child? (k := index) (o := offset)
    (s := p.type.shape rules)
    (getElem?_zip_eq_some.mpr ⟨hoffset, by rw [getElem?_map, htype]; rfl⟩)
  have hinside := ValueType.size_le_structShape htype hoffset
  generalize p.type.shape rules = shape at hpart
  obtain ⟨kind, size, children⟩ := shape
  refine ⟨⟨kind, size, 0 + offset⟩, ?_, ?_⟩
  · rw [parameter?, hnext]
    exact hpart.entry?
  · rw [hsize, Nat.zero_add]
    exact hinside

/-- Where an item may read the arguments that were declared for it. -/
def DeclaredLoads (rules : LayoutRules) (index : Nat) (layout : Option Layout)
    (block offset : Nat) (t : ValueType) : Prop :=
  block = index ∧ ∃ l, layout = some l ∧ offset + t.size rules ≤ l.size

/-- The declaration of the argument block of an item. -/
def Compilable.argBlock (item : Compilable) : ArgBlock :=
  ⟨item.parameters.map (·.name), item.parameters.map fun p => p.type.storage⟩

namespace Compilation

variable {c : Compilation} {item : Compilable} {layout : Option Layout}

/-- The graphs of a well-typed item find their parameters in the declared block. -/
theorem supplied_of_declareBlock (htyped : item.Typed)
    (hlayout : c.parameterLayout item = .ok layout) {f : Fragment}
    (hf : f ∈ item.fragments) (s₀ : LowerState) :
    Supplied (DeclaredLoads c.target.rules c.assembly.argBlocks.length layout) f.graph
      (BlockBinding.source (c.declareBlock item layout).1) s₀ := by
  cases layout with
  | none => exact trivial
  | some l =>
    have hbuild := build_of_parameterLayout hlayout
    intro id index offset t hnode hoffset
    obtain ⟨i, hi, rfl⟩ := Option.map_eq_some_iff.mp (List.getElem?_map.symm.trans hoffset)
    obtain ⟨hlt, rfl⟩ := List.getElem?_eq_some_iff.mp hi
    rw [length_range] at hlt
    rw [getElem_range]
    have hparameters : f.graph.ParametersFrom item.parameters := by
      rcases htyped with hnone | hall
      · rw [hnone] at hlt
        cases hlt
      · exact hall f hf
    obtain ⟨p, hp, rfl⟩ := hparameters.node? hnode index rfl
    obtain ⟨e, he, hinside⟩ := Layout.parameter?_of_build hbuild hp
    refine ⟨rfl, l, rfl, ?_⟩
    rw [he, ValueType.size_storage]
    exact hinside

theorem declareBlock_index (c : Compilation) (item : Compilable) (layout : Option Layout) :
    (c.declareBlock item layout).1.map (·.index) =
      layout.map fun _ => c.assembly.argBlocks.length := by
  cases layout <;> rfl

/-- Declaring a block gives ids to strings and leaves the rest of the program as it is. -/
theorem declareBlock_frame (c : Compilation) (item : Compilable) (layout : Option Layout) :
    ∃ pool, c.assembly.pool.Reaches pool ∧ (c.declareBlock item layout).2 = { c.assembly with
      pool
      argBlocks := c.assembly.argBlocks ++ layout.toList.map fun _ => item.argBlock } := by
  cases layout with
  | none =>
    refine ⟨_, .refl, ?_⟩
    rw [Option.toList_none, map_nil, append_nil]
    rfl
  | some l => exact ⟨_, .internStrings _ _, rfl⟩

/-- What lowering a laid out item does to the program. -/
theorem lowerLaidOut_adds {Loads : Nat → Nat → ValueType → Prop} {s : Surroundings}
    {resources : ResourceMap} {a : Assembly} (hsupplied : ∀ f ∈ item.fragments, ∀ s₀,
      Supplied Loads f.graph (BlockBinding.source (c.declareBlock item layout).1) s₀)
    (h : c.lowerLaidOut s item resources layout = (.ok (), a)) :
    ∃ new pool usage,
      a = { c.assembly with
        routines := c.assembly.routines ++ new
        argBlocks := c.assembly.argBlocks ++ layout.toList.map fun _ => item.argBlock
        pool
        usage } ∧
      Assembly.Adds (item.lowerEnv (c.settings s) resources) Loads
        (layout.map fun _ => c.assembly.argBlocks.length) new c.assembly a := by
  obtain ⟨declared, hreaches, hframe⟩ := c.declareBlock_frame item layout
  obtain ⟨new, pool, usage, rfl, hadds⟩ := lowerItem_adds hsupplied h
  rw [declareBlock_index] at hadds
  rw [hframe] at hadds ⊢
  exact ⟨new, pool, usage, rfl, { hadds with pool := hreaches.trans hadds.pool }⟩

/-! ## The invariant -/

/-- Where a routine of the compile may read arguments: in its own block. -/
def Loads (c : Compilation) (argBlock : Option Nat) (block offset : Nat) (t : ValueType) : Prop :=
  argBlock = some block ∧ ∃ l, c.layouts[block]? = some l ∧
    offset + t.size c.target.rules ≤ l.size

/-- What every compile keeps: there is one layout for every argument block, the bounds of the
program are those of the options, and all routines are sound. -/
structure Bounded (c : Compilation) : Prop where
  pool : DataPool.empty.Reaches c.assembly.pool
  blocks : c.layouts.length = c.assembly.argBlocks.length
  spaces : c.assembly.numTextureSpaces = c.options.numTextureSpaces
  results : c.assembly.numTextureResults = c.options.numTextureResults
  routines : ∀ r ∈ c.assembly.routines,
    r.Sound c.options c.target.rules (c.Loads r.argBlock) c.assembly.pool

theorem start_bounded (target : TargetKind) (o : Options) (linkUnit : Bool) :
    (Compilation.start target o linkUnit).Bounded :=
  ⟨.refl, rfl, rfl, rfl, forall_mem_nil _⟩

theorem Agrees.bounded {c d : Compilation} (h : c.Agrees d) (hc : c.Bounded) : d.Bounded := by
  unfold Agrees at h
  rw [← h]
  exact ⟨hc.pool, hc.blocks, hc.spaces, hc.results, hc.routines⟩

/-- Adding a well-typed item keeps the invariant. -/
theorem compile_bounded {d : Compilation} {s : Surroundings} {index : Option Nat}
    (hc : c.Bounded) (htyped : item.Typed) (h : c.compile s item = (.ok index, d)) : d.Bounded := by
  obtain ⟨layout, a, hlayout, _, hlower, rfl⟩ := compile_eq_ok_iff.mp h
  obtain ⟨new, pool, usage, rfl, hadds⟩ := lowerLaidOut_adds
    (fun f hf s₀ => supplied_of_declareBlock htyped hlayout hf s₀) hlower
  have hblocks := hc.blocks
  refine ⟨hc.pool.trans hadds.pool, ?_, hc.spaces, hc.results, ?_⟩
  · simp [accept, hblocks]
  · intro r hr
    rcases mem_append.mp hr with hr | hr
    · -- A block keeps its layout when others are appended.
      refine ((hc.routines r hr).of_reaches hadds.pool).of_loads ?_
      rintro block offset t ⟨hblock, l, hl, hinside⟩
      refine ⟨hblock, l, ?_, hinside⟩
      exact (List.getElem?_append_left (List.getElem?_eq_some_iff.mp hl).1).trans hl
    · have hblock := hadds.argBlock r hr
      have hsound := hadds.sound r hr
      rw [Compilable.lowerEnv_options, Compilable.lowerEnv_rules] at hsound
      refine hsound.of_loads ?_
      rintro block offset t ⟨rfl, l, rfl, hinside⟩
      refine ⟨hblock, l, ?_, hinside⟩
      rw [← hblocks]
      simp [accept]

/-- The routines of a compile that keeps the invariant are in bounds. -/
theorem Bounded.inBounds (hc : c.Bounded) {r : Routine} (hr : r ∈ c.assembly.routines) :
    r.InBounds c.assembly.finish c.layouts c.target.rules := by
  have hsound := hc.routines r hr
  have hpool := hc.pool.sound DataPool.empty_sound
  have hinstr := fun instr (hinstr : instr ∈ r.body) => hsound.instrs instr hinstr
  refine ⟨?_, hsound.wellFormed.results, hsound.wellFormed.stores, ?_, ?_, ?_, hsound.distinct,
    ?_, ?_⟩
  · exact hsound.wellFormed.ordered
  · intro instr hmem n hop
    have hadmissible := hinstr instr hmem
    unfold Admissible at hadmissible
    rw [hop] at hadmissible
    exact Nat.lt_of_lt_of_eq hadmissible hc.spaces.symm
  · intro instr hmem n hop
    have hadmissible := hinstr instr hmem
    unfold Admissible at hadmissible
    rw [hop] at hadmissible
    exact Nat.lt_of_lt_of_eq hadmissible hc.results.symm
  · intro st hst
    exact Nat.lt_of_lt_of_eq (hsound.slots _ (mem_map_of_mem hst)) hc.results.symm
  · intro instr hmem block offset hop
    have hadmissible := hinstr instr hmem
    unfold Admissible at hadmissible
    rw [hop] at hadmissible
    obtain ⟨hblock, l, hl, hinside⟩ := hadmissible
    refine ⟨hblock, ?_, l, hl, hinside⟩
    exact Nat.lt_of_lt_of_eq (List.getElem?_eq_some_iff.mp hl).1 hc.blocks
  · intro instr hmem offset hop
    have hadmissible := hinstr instr hmem
    unfold Admissible at hadmissible
    rw [hop] at hadmissible
    obtain ⟨piece, hpiece, hsize⟩ := hadmissible
    have hinside := hpool.inside (mem_of_lookup hpiece)
    exact Nat.le_trans (Nat.add_le_add_left hsize offset) hinside

end Compilation

/-- The programs of link units are well formed and in bounds: after any requests about
checked materials, successful ones and others, every routine refers only to operands, texture
spaces, texture results, arguments and data that there are. -/
theorem unit_programs_are_in_bounds (b : Backend) (requests : List (Surroundings × UnitRequest))
    (hvalid : ∀ r ∈ requests, r.2.Validated) (c : Compilation)
    (hc : ((LinkUnit.create b).serve requests).compilation = some c) :
    ∀ r ∈ c.assembly.finish.routines,
      r.InBounds c.assembly.finish c.layouts c.target.rules := by
  have hbounded : c.Bounded := by
    have hadd : ∀ {c d : Compilation} {r : Surroundings × UnitRequest} {item : Compilable}
        {index : Option Nat}, c.Bounded → r.2.Validated →
        r.2.build r.1.library c.options = .ok item → c.refusal? item = none →
        c.compile r.1 item = (.ok index, d) → d.Bounded := by
      intro c d r item index hc hr hbuild hrefusal hcompile
      exact Compilation.compile_bounded hc (UnitRequest.typed_of_build hr hbuild hrefusal)
        hcompile
    refine LinkUnit.serve_induction (fun hagrees hd => hagrees.bounded hd) hadd
      (LinkUnit.create_sound b).balanced ?_ requests hvalid c hc
    · intro c hc
      cases hc
      exact Compilation.start_bounded b.target b.options true
  exact fun r hr => hbounded.inBounds hr

/-- A material with a field that reads a parameter and one that is a large constant. -/
def lacquer : Material where
  name := "lacquer"
  graph := ⟨#[⟨.parameter 0, .color⟩,
    ⟨.constant (.array [.int 1, .int 2, .int 3, .int 5, .int 8]), .array .int 5⟩]⟩
  fields := (OrderedMap.empty.insert "tint" 0).insert "steps" 1
  parameters := [⟨"tint", .color, .color 1 1 1⟩]

/-- Code for storage buffers, not optimised. -/
def plainBackend : Backend :=
  ⟨.gpu, { Options.default with optLevel := 0 }, true⟩

/-- A switch between the two fields reads from an argument block and from the data. -/
theorem unit_programs_are_in_bounds_lacquer :
    lacquer.check = .ok () ∧
      ∃ c, ((LinkUnit.create plainBackend).serve
          [(oneTexture, .fields lacquer ["tint", "steps"] "both")]).compilation = some c ∧
        c.assembly.routines.map (·.body) =
          [#[⟨.color, .argLoad 0 0⟩, ⟨.array .int 5, .roLoad 0⟩]] ∧
        ∀ r ∈ c.assembly.finish.routines,
          r.InBounds c.assembly.finish c.layouts c.target.rules := by
  have hcheck : lacquer.check = .ok () := by
    cbv
  have hbodies : ((LinkUnit.create plainBackend).serve
      [(oneTexture, .fields lacquer ["tint", "steps"] "both")]).compilation.map
        (fun c => c.assembly.routines.map (·.body)) =
          some [#[⟨.color, .argLoad 0 0⟩, ⟨.array .int 5, .roLoad 0⟩]] := by
    cbv
  obtain ⟨c, hc, hbody⟩ := Option.map_eq_some_iff.mp hbodies
  refine ⟨hcheck, c, hc, hbody, unit_programs_are_in_bounds _ _ ?_ c hc⟩
  intro r hr
  rw [mem_singleton.mp hr]
  exact hcheck

end Shading
