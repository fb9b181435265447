import Shading.Proofs.Session.Bounds
import Shading.Proofs.Session.Resources
import Shading.Proofs.Session.Reuse
import Shading.Proofs.Shader.Names

/-!
# The tables of a link unit

A unit keeps several lists that belong together: the routines of the program and the table
of functions, the declarations of argument blocks, their layouts and their values.  One item
appends to all of them, at different points of its compile and with one entry or four; an
item that fails appends nothing.  So every function stays with the block of its own item.

Main definitions:

- `Compilable.entries` lists the entry points of an item.
- `Compilation.Extended` says what an item that compiles has appended.
- `Compilation.Tabled` is the invariant of the tables, over the items that were added.

Main results:

- `Compilation.compile_extended`: what an item that compiles has appended.
- `Compilation.Tabled.extended`: the invariant is kept.
- `unit_tables_grow_together`: the tables of a unit after any requests, what one more request
  appends to them, and what the artifact makes of them.
-/

namespace Shading

open List

variable {index : Option Nat} {s : AssemblySettings} {resources : ResourceMap}
  {block : Option BlockBinding} {items : List Compilable}

/-! ## Entry points -/

namespace Compilable

/-- The names and the kinds of the entry points, in order. -/
def entries : Compilable → List (String × FunctionKind)
  | .function f kind => [(f.name, kind)]
  | .distribution d => FunctionKind.distributionEntries.map fun e => (d.name ++ "_" ++ e.2, e.1)

/-- The rows of the entry points, which share an argument block. -/
def rows (item : Compilable) (index : Option Nat) : List FunctionRow :=
  item.entries.map fun e => ⟨e.1, e.2, index, ""⟩

/-- Rows of one argument block become those of another. -/
theorem rows_rebind (item : Compilable) {index' : Option Nat} :
    (item.rows index).map (fun f => { f with argBlock := index' }) = item.rows index' := by
  unfold rows
  rw [map_map]
  rfl

theorem functionNames_eq (item : Compilable) : item.functionNames = item.entries.map Prod.fst := by
  cases item <;> rfl

/-- The entry points of an item have different names. -/
theorem nodup_functionNames (item : Compilable) : item.functionNames.Nodup := by
  cases item with
  | function f kind => exact nodup_singleton f.name
  | distribution d =>
    have hsuffixes : (FunctionKind.distributionEntries.map Prod.snd).Nodup := by decide
    have hnames : functionNames (.distribution d)
        = (FunctionKind.distributionEntries.map Prod.snd).map (d.name ++ "_" ++ ·) := rfl
    rw [hnames]
    exact hsuffixes.map fun a b h => String.append_right_inj _ |>.mp h

end Compilable

/-- The row of a routine, without a signature. -/
def Routine.row (r : Routine) : FunctionRow :=
  ⟨r.name, r.kind, r.argBlock, ""⟩

namespace Assembly

variable {a a' : Assembly}

/-- Routines that were lowered and optimised keep their rows. -/
theorem Lowers.rows {o : Options} {jobs : List Job} {new : List Routine}
    (h : Lowers o jobs a new a') : new.map Routine.row = jobs.map fun job => job.header.row := by
  induction h with
  | nil => rfl
  | @cons job _ _ _ _ _ _ hfirst _ ih =>
    obtain ⟨result, t, -, rfl, -⟩ := lowerRoutine_eq_ok_iff.mp hfirst
    have hheader := finishRoutine_sameHeader o job.header result t.body
    rw [map_cons, map_cons, ih]
    unfold Routine.row
    rw [hheader.name, hheader.kind, hheader.argBlock]

end Assembly

/-- The headers of the jobs of an item are its rows. -/
theorem Compilable.rows_of_jobs {item : Compilable} {jobs : List Assembly.Job}
    (h : item.jobs s resources block = .ok jobs) :
    jobs.map (fun job => job.header.row) = item.rows (block.map (·.index)) := by
  cases item with
  | function f kind =>
    cases Assembly.fragmentJobs_eq_ok h
    rfl
  | distribution d =>
    obtain ⟨root, more, -, rfl⟩ := Assembly.distributionJobs_eq_ok h
    rfl

/-! ## One item -/

namespace Compilation

variable {c d : Compilation} {item : Compilable} {layout : Option Layout}

variable {s : Surroundings}

/-- What an item that compiles has appended, with the layout of its parameters. -/
structure Extended (c : Compilation) (item : Compilable) (layout : Option Layout)
    (d : Compilation) : Prop where
  laidOut : c.parameterLayout item = .ok layout
  target : d.target = c.target
  options : d.options = c.options
  rows : d.functions = c.functions ++ item.rows (layout.map fun _ => c.layouts.length)
  routines : ∃ new, d.assembly.routines = c.assembly.routines ++ new ∧
    new.map Routine.row = item.rows (layout.map fun _ => c.assembly.argBlocks.length)
  layouts : d.layouts = c.layouts ++ layout.toList
  values : d.blockValues = c.blockValues ++ layout.toList.map fun _ => item.argumentValues
  blocks : d.assembly.argBlocks = c.assembly.argBlocks ++ layout.toList.map fun _ => item.argBlock
  pool : c.assembly.pool.Reaches d.assembly.pool
  tables : c.tables.Extends d.tables

theorem lowerLaidOut_rows {a : Assembly}
    (h : c.lowerLaidOut s item resources layout = (.ok (), a)) :
    ∃ new, a.routines = c.assembly.routines ++ new ∧
      new.map Routine.row = item.rows (layout.map fun _ => c.assembly.argBlocks.length) := by
  obtain ⟨jobs, new, b, hjobs, hlowers, rfl⟩ := Assembly.addJobs_eq_ok_iff.mp h
  have hrows := hlowers.rows.trans (Compilable.rows_of_jobs hjobs)
  rw [declareBlock_index] at hrows
  obtain ⟨declared, -, hframe⟩ := c.declareBlock_frame item layout
  obtain ⟨pool, usage, rfl⟩ := hlowers.frame
  refine ⟨new, ?_, hrows⟩
  rw [hframe]

/-- What an item that compiles has appended. -/
theorem compile_extended (h : c.compile s item = (.ok index, d)) :
    ∃ layout : Option Layout, index = layout.map (fun _ => c.layouts.length) ∧
      c.Extended item layout d := by
  obtain ⟨layout, a, hlayout, rfl, hlower, rfl⟩ := compile_eq_ok_iff.mp h
  obtain ⟨new, hroutines, hrows⟩ := lowerLaidOut_rows hlower
  obtain ⟨added, _, _, rfl, hadds⟩ :=
    lowerLaidOut_adds (fun f _ => supplied_source f.graph _) hlower
  rw [← append_cancel_left hroutines] at hrows
  refine ⟨layout, rfl, hlayout, rfl, rfl, ?_, ⟨_, rfl, hrows⟩, rfl, rfl, rfl, hadds.pool,
    (item.bindResources_binding _ _ _).grows⟩
  have hnew : added.map (fun r => (⟨r.name, r.kind, c.nextIndex layout, ""⟩ : FunctionRow))
      = item.rows (c.nextIndex layout) := by
    rw [← item.rows_rebind, ← hrows, map_map]
    rfl
  unfold accept
  dsimp only
  rw [drop_left, hnew]
  rfl

/-! ## The invariant -/

/-- A function belongs to an item: it is one of its entry points, and without an argument
block if the item has no parameters, else with the block that was laid out, declared and
filled for them. -/
def Belongs (c : Compilation) (row : FunctionRow) (item : Compilable) : Prop :=
  (row.name, row.kind) ∈ item.entries ∧
    match row.argBlock with
    | none => item.parameters = []
    | some k => item.parameters ≠ [] ∧
        (∃ l, c.layouts[k]? = some l ∧ Layout.build item.parameters c.target.rules = .ok l) ∧
        c.blockValues[k]? = some item.argumentValues ∧
        c.assembly.argBlocks[k]? = some item.argBlock

/-- The items to which the functions of added items belong, function by function. -/
def owners (items : List Compilable) : List Compilable :=
  items.flatMap fun item => item.entries.map fun _ => item

/-- The invariant of the tables, over the items that were added. -/
structure Tabled (c : Compilation) (items : List Compilable) : Prop where
  rows : c.functions = c.assembly.routines.map Routine.row
  distinct : (c.functions.map (·.name)).Nodup
  values : c.blockValues.length = c.layouts.length
  blocks : c.assembly.argBlocks.length = c.layouts.length
  built : ∀ l ∈ c.layouts, ∃ parameters, Layout.build parameters c.target.rules = .ok l
  owned : Forall₂ c.Belongs c.functions (owners items)

theorem start_tabled (target : TargetKind) (o : Options) (linkUnit : Bool) :
    (Compilation.start target o linkUnit).Tabled [] :=
  ⟨rfl, nodup_nil, rfl, rfl, forall_mem_nil _, .nil⟩

theorem Agrees.tabled (h : c.Agrees d) (hc : c.Tabled items) : d.Tabled items := by
  unfold Agrees at h
  rw [← h]
  exact ⟨hc.rows, hc.distinct, hc.values, hc.blocks, hc.built, hc.owned⟩

/-- The layout of the parameters is there if there are parameters. -/
theorem parameterLayout_eq_ok (h : c.parameterLayout item = .ok layout) :
    match layout with
    | none => item.parameters = []
    | some l => item.parameters ≠ [] ∧ Layout.build item.parameters c.target.rules = .ok l := by
  cases layout with
  | none =>
    unfold parameterLayout at h
    split at h
    · cases hbuild : Layout.build item.parameters c.target.rules <;> rw [hbuild] at h <;> cases h
    · rename_i hcaptures
      simpa [Fragment.capturesParameters, Compilable.parameters] using hcaptures
  | some l =>
    refine ⟨?_, build_of_parameterLayout h⟩
    unfold parameterLayout at h
    split at h
    · rename_i hcaptures
      simpa [Fragment.capturesParameters, Compilable.parameters] using hcaptures
    · cases h

/-- The names of an item that is not refused are new. -/
theorem names_of_refusal (h : c.refusal? item = none) :
    ∀ name ∈ item.functionNames, name ∉ c.assembly.routines.map (·.name) := by
  have htaken : refusal?.taken? c item.functionNames = none := by
    unfold refusal? at h
    split at h
    · cases h
    split at h
    · split at h
      · cases h
      · exact h
    · exact h
  unfold refusal?.taken? at htaken
  intro name hname hmem
  obtain ⟨r, hr, rfl⟩ := mem_map.mp hmem
  refine find?_eq_none.mp (Option.map_eq_none_iff.mp htaken) r.name hname ?_
  exact any_eq_true.mpr ⟨r, hr, beq_self_eq_true _⟩

/-- A function that belongs to an item still belongs to it when more is appended. -/
theorem Extended.belongs (h : c.Extended item layout d) {row : FunctionRow} {owner : Compilable}
    (hrow : c.Belongs row owner) : d.Belongs row owner := by
  obtain ⟨hentry, hblock⟩ := hrow
  refine ⟨hentry, ?_⟩
  cases hindex : row.argBlock with
  | none =>
    rw [hindex] at hblock
    exact hblock
  | some k =>
    rw [hindex] at hblock
    obtain ⟨hparameters, ⟨l, hl, hbuild⟩, hvalues, hdeclared⟩ := hblock
    have hkept : ∀ {α : Type} {old new : List α} {a : α}, old[k]? = some a →
        (old ++ new)[k]? = some a := by
      intro α old new a ha
      exact (List.getElem?_append_left (List.getElem?_eq_some_iff.mp ha).1).trans ha
    refine ⟨hparameters, ⟨l, ?_, ?_⟩, ?_, ?_⟩
    · rw [h.layouts]
      exact hkept hl
    · rw [h.target]
      exact hbuild
    · rw [h.values]
      exact hkept hvalues
    · rw [h.blocks]
      exact hkept hdeclared

/-- The rows of an item belong to it. -/
theorem Extended.rows_belong (h : c.Extended item layout d)
    (hvalues : c.blockValues.length = c.layouts.length)
    (hblocks : c.assembly.argBlocks.length = c.layouts.length) :
    ∀ row ∈ item.rows (layout.map fun _ => c.layouts.length), d.Belongs row item := by
  intro row hrow
  obtain ⟨e, he, rfl⟩ := mem_map.mp hrow
  refine ⟨he, ?_⟩
  have hlayout := parameterLayout_eq_ok h.laidOut
  cases layout with
  | none => exact hlayout
  | some l =>
    refine ⟨hlayout.1, ⟨l, ?_, ?_⟩, ?_, ?_⟩
    · rw [h.layouts, Option.toList_some, getElem?_concat_length]
    · rw [h.target]
      exact hlayout.2
    · rw [h.values, ← hvalues]
      exact getElem?_concat_length
    · rw [h.blocks, ← hblocks]
      exact getElem?_concat_length

/-- An item that was not refused and that compiles keeps the invariant. -/
theorem Tabled.extended (hc : c.Tabled items) (hrefusal : c.refusal? item = none)
    (h : c.Extended item layout d) : d.Tabled (items ++ [item]) := by
  obtain ⟨new, hroutines, hrows⟩ := h.routines
  rw [hc.blocks] at hrows
  refine ⟨?_, ?_, ?_, ?_, ?_, ?_⟩
  · rw [h.rows, hroutines, map_append, hc.rows, hrows]
  · have hnames : (item.rows (layout.map fun _ => c.layouts.length)).map (·.name)
        = item.functionNames := by
      rw [item.functionNames_eq, Compilable.rows, map_map]
      rfl
    have hold : c.functions.map (·.name) = c.assembly.routines.map (·.name) := by
      rw [hc.rows, map_map]
      rfl
    rw [h.rows, map_append, hnames]
    refine List.Nodup.append hc.distinct item.nodup_functionNames ?_
    intro name hmem hname
    rw [hold] at hmem
    exact names_of_refusal hrefusal name hname hmem
  · rw [h.values, h.layouts, length_append, length_append, length_map, hc.values]
  · rw [h.blocks, h.layouts, length_append, length_append, length_map, hc.blocks]
  · intro l hl
    rw [h.layouts] at hl
    rw [h.target]
    rcases mem_append.mp hl with hl | hl
    · exact hc.built l hl
    · have hlayout := parameterLayout_eq_ok h.laidOut
      cases layout with
      | none => cases hl
      | some l' =>
        rw [mem_singleton.mp hl]
        exact ⟨item.parameters, hlayout.2⟩
  · have howners : owners (items ++ [item]) = owners items ++ item.entries.map fun _ => item := by
      simp [owners]
    rw [h.rows, howners]
    refine rel_append (hc.owned.imp fun _ _ hrow => h.belongs hrow) ?_
    unfold Compilable.rows
    refine forall₂_map_left_iff.mpr (forall₂_map_right_iff.mpr ?_)
    refine forall₂_same.mpr fun e he => ?_
    exact h.rows_belong hc.values hc.blocks _ (mem_map_of_mem he)

/-- A compile all of whose tables are continued by those of another one. -/
structure PrefixOf (c d : Compilation) : Prop where
  routines : c.assembly.finish.routines <+: d.assembly.finish.routines
  functions : c.functions <+: d.functions
  layouts : c.layouts <+: d.layouts
  argBlocks : c.assembly.finish.argBlocks <+: d.assembly.finish.argBlocks
  roSegment : c.assembly.finish.roSegment <+: d.assembly.finish.roSegment
  strings : c.assembly.finish.strings <+: d.assembly.finish.strings
  resources : ∀ kind, c.tables.table kind <+: d.tables.table kind

theorem Extended.prefixOf (h : c.Extended item layout d) : c.PrefixOf d := by
  obtain ⟨new, hroutines, -⟩ := h.routines
  refine ⟨?_, ?_, ?_, ?_, h.pool.bytes, h.pool.grows.strings, h.tables⟩
  · change c.assembly.routines <+: d.assembly.routines
    rw [hroutines]
    exact prefix_append _ _
  · rw [h.rows]
    exact prefix_append _ _
  · rw [h.layouts]
    exact prefix_append _ _
  · change c.assembly.argBlocks <+: d.assembly.argBlocks
    rw [h.blocks]
    exact prefix_append _ _

theorem Extended.index_eq (h : c.Extended item layout d) (n : Nat) :
    layout.map (fun _ => n) = if item.parameters = [] then none else some n := by
  have hlayout := parameterLayout_eq_ok h.laidOut
  cases layout with
  | none => rw [if_pos hlayout, Option.map_none]
  | some l => rw [if_neg hlayout.1, Option.map_some]

end Compilation

/-! ## Units -/

namespace LinkUnit

/-- What the successful ones of some requests compile, in order. -/
def added : LinkUnit → List (Surroundings × UnitRequest) → List Compilable
  | _, [] => []
  | u, (s, r) :: rest =>
    match u.compilation, u.request s r with
    | some c, (.ok _, v) => (r.build s.library c.options).toOption.toList ++ v.added rest
    | _, (_, v) => v.added rest

/-- The invariant holds after any requests, over the items that were added. -/
theorem serve_tabled {u : LinkUnit} (hu : ∀ c, u.compilation = some c → c.Tabled items)
    (requests : List (Surroundings × UnitRequest)) :
    ∀ c, (u.serve requests).compilation = some c → c.Tabled (items ++ u.added requests) := by
  induction requests generalizing u items with
  | nil =>
    rw [added, append_nil]
    exact hu
  | cons r rest ih =>
    obtain ⟨s, r⟩ := r
    change ∀ c, (serve (u.request s r).2 rest).compilation = some c → _
    cases hopen : u.compilation with
    | none =>
      have hadded : u.added ((s, r) :: rest) = u.added rest := by
        rw [added, hopen, request_closed hopen]
      rw [request_closed hopen, hadded]
      exact ih hu
    | some c =>
      have hc := hu c hopen
      rcases hr : u.request s r with ⟨e | index, v⟩
      · have hadded : u.added ((s, r) :: rest) = v.added rest := by
          rw [added, hopen, hr]
        obtain ⟨d, hd, hagrees, _⟩ := request_error hopen hc.values hr
        rw [hadded]
        refine ih fun d' hd' => ?_
        rw [hd] at hd'
        cases hd'
        exact hagrees.symm.tabled hc
      · obtain ⟨d, item, hd, hbuild, hadd⟩ := request_ok hopen hr
        obtain ⟨hrefusal, hcompile⟩ := Compilation.add_eq_ok_iff.mp hadd
        obtain ⟨layout, -, hextended⟩ := Compilation.compile_extended hcompile
        have hadded : u.added ((s, r) :: rest) = item :: v.added rest := by
          rw [added, hopen, hr]
          dsimp only
          rw [hbuild]
          rfl
        rw [hadded, append_cons]
        refine ih fun d' hd' => ?_
        rw [hd] at hd'
        cases hd'
        exact hc.extended hrefusal hextended

end LinkUnit

/-- A successful request for a distribution compiles a distribution. -/
theorem UnitRequest.build_distribution {m : Material} {path name : String} {lib : Library}
    {o : Options} {item : Compilable} (h : build (.distribution m path name) lib o = .ok item) :
    ∃ d, item = .distribution d := by
  obtain ⟨_, _, h⟩ := exists_of_bind_eq_ok h
  obtain ⟨d, _, h⟩ := exists_of_bind_eq_ok h
  cases h
  exact ⟨d, rfl⟩

/-! ## Artifacts -/

/-- The signature of a routine in the code of a target: that of its shader, which is written
with the names that the routines before it have used, or else that of its listing. -/
def Program.PrototypeAt (p : Program) (target : TargetKind) (format : OutputFormat) (k : Nat)
    (prototype : String) : Prop :=
  ∃ r, p.routines[k]? = some r ∧
    if target = .gpu ∧ format = .assembly then
      ∃ before names text after,
        (routineShaders (p.routines.take k)).run .empty = .ok (before, names) ∧
        r.shader.run names = .ok ((prototype, text), after)
    else prototype = r.prototype

/-- The signatures of shaders, one for each routine. -/
theorem routineShaders_prototypes {routines : List Routine} {prototypes : List String}
    {texts : String} {s t : ShaderNames}
    (h : (routineShaders routines).run s = .ok ((prototypes, texts), t)) :
    prototypes.length = routines.length ∧
      ∀ (k : Nat) (prototype : String), prototypes[k]? = some prototype →
        ∃ r before names text after, routines[k]? = some r ∧
          (routineShaders (routines.take k)).run s = .ok (before, names) ∧
          r.shader.run names = .ok ((prototype, text), after) := by
  induction routines generalizing prototypes texts s with
  | nil =>
    cases h
    exact ⟨rfl, fun k prototype hk => by cases hk⟩
  | cons r rest ih =>
    obtain ⟨⟨first, text⟩, mid, hfirst, h⟩ := ShaderM.run_bind_eq_ok h
    obtain ⟨⟨others, otherTexts⟩, last, hrest, h⟩ := ShaderM.run_bind_eq_ok h
    cases h
    obtain ⟨hlength, hothers⟩ := ih hrest
    refine ⟨congrArg (· + 1) hlength, ?_⟩
    intro k prototype hk
    cases k with
    | zero =>
      cases hk
      exact ⟨r, _, s, text, mid, rfl, rfl, hfirst⟩
    | succ k =>
      obtain ⟨r', before, names, text', after, hr', hbefore, hshader⟩ := hothers k prototype hk
      refine ⟨r', (first :: before.1, "\n" ++ text ++ before.2), names, text', after, hr', ?_,
        hshader⟩
      rw [take_succ_cons, routineShaders, ShaderM.run_bind_of_ok hfirst,
        ShaderM.run_bind_of_ok hbefore]
      rfl

/-- The signatures of a program, one for each routine. -/
theorem Program.emit_prototypes {p : Program} {target : TargetKind} {format : OutputFormat}
    {code : Emitted} (h : p.emit target format = .ok code) :
    code.prototypes.length = p.routines.length ∧
      ∀ (k : Nat) (prototype : String), code.prototypes[k]? = some prototype →
        p.PrototypeAt target format k prototype := by
  by_cases hshader : target = .gpu ∧ format = .assembly
  · obtain ⟨rfl, rfl⟩ := hshader
    obtain ⟨m, hm, hcode⟩ := exists_of_bind_eq_ok h
    obtain ⟨⟨⟨prototypes, texts⟩, names⟩, hrun, hm⟩ := exists_of_bind_eq_ok hm
    cases hm
    cases hcode
    obtain ⟨hlength, hprototypes⟩ := routineShaders_prototypes hrun
    refine ⟨hlength, fun k prototype hk => ?_⟩
    obtain ⟨r, before, names, text, after, hr, hbefore, hshader⟩ := hprototypes k prototype hk
    exact ⟨r, hr, by rw [if_pos ⟨rfl, rfl⟩]; exact ⟨before, names, text, after, hbefore, hshader⟩⟩
  · have hlisted : code.prototypes = p.routines.map Routine.prototype := by
      cases target <;> cases format <;> first | (cases h; rfl) | exact absurd ⟨rfl, rfl⟩ hshader
    rw [hlisted, length_map]
    refine ⟨rfl, fun k prototype hk => ?_⟩
    rw [getElem?_map] at hk
    obtain ⟨r, hr, rfl⟩ := Option.map_eq_some_iff.mp hk
    exact ⟨r, hr, by rw [if_neg hshader]⟩

/-- A block keeps its size while it is filled. -/
theorem Layout.length_fillPartial {parameters : List Parameter} {rules : LayoutRules} {l : Layout}
    (h : Layout.build parameters rules = .ok l) (r : IndexResolver) (values : List Value) :
    (l.fillPartial r values l.newBlock).2.length = l.size := by
  obtain ⟨_, hnodes⟩ := represents_of_build h
  have hfilled := fillPartialFrom_changedOnly (r := r) hnodes values 0
    (fun _ _ => Nat.zero_le _) l.newBlock
  rw [fillPartial, hfilled.length_eq, newBlock, Bytes.zeros, length_replicate]

/-- What an artifact makes of the tables of a compile: every function gets the signature of
its routine, and every layout a block of its size. -/
structure Artifact.Lists (a : Artifact) (c : Compilation) : Prop where
  layouts : a.layouts = c.layouts
  length_functions : a.functions.length = c.assembly.finish.routines.length
  functions : ∀ (k : Nat) (r : Routine), c.assembly.finish.routines[k]? = some r →
    ∃ prototype, a.functions[k]? = some { r.row with prototype } ∧
      c.assembly.finish.PrototypeAt c.target c.options.outputFormat k prototype
  length_blocks : a.blocks.length = a.layouts.length
  blocks : ∀ (k : Nat) (l : Layout), a.layouts[k]? = some l →
    ∃ block, a.blocks[k]? = some block ∧ block.length = l.size

theorem Compilation.Tabled.finish [ShaderCheck] {c : Compilation} {items : List Compilable}
    {a : Artifact} (hc : c.Tabled items) (h : c.finish = .ok a) : a.Lists c := by
  obtain ⟨-, code, hemit, rfl⟩ := finish_eq_ok h
  obtain ⟨hlength, hprototypes⟩ := Program.emit_prototypes hemit
  have hfunctions : (Artifact.assemble (c.parts c.assembly.finish code) c.blockValues).functions
      = c.functions.zipWith (fun f prototype => { f with prototype }) code.prototypes := rfl
  refine ⟨rfl, ?_, ?_, ?_, ?_⟩
  · rw [hfunctions, length_zipWith, hlength, hc.rows, length_map]
    exact Nat.min_self _
  · intro k r hr
    obtain ⟨prototype, hprototype⟩ : ∃ prototype, code.prototypes[k]? = some prototype := by
      have hlt := (List.getElem?_eq_some_iff.mp hr).1
      rw [← hlength] at hlt
      exact ⟨_, List.getElem?_eq_getElem hlt⟩
    have hrow : c.functions[k]? = some r.row := by
      rw [hc.rows, List.getElem?_map]
      exact congrArg (Option.map Routine.row) hr
    refine ⟨prototype, ?_, hprototypes k prototype hprototype⟩
    rw [hfunctions, List.getElem?_zipWith, hrow, hprototype]
  · simp [Artifact.assemble]
  · intro k l hl
    obtain ⟨parameters, hbuild⟩ := hc.built l (mem_of_getElem? hl)
    exact ⟨_, Artifact.block_of_assemble hl, Layout.length_fillPartial hbuild _ _⟩

/-- The tables of a unit belong together and only grow.  After any requests, failed ones among
them, the table of functions lists the routines of the program, with names that differ;
layouts, values and declarations of argument blocks are equally many; and every function
belongs to the item that was added for it.  One more request that succeeds continues all
tables, returns the number of layouts if its item has parameters, and appends the rows of its
item, four of them for a distribution.  When the unit is closed, the artifact lists the
functions with the signatures of their routines, and one block for every layout. -/
theorem unit_tables_grow_together [ShaderCheck] (b : Backend)
    (requests : List (Surroundings × UnitRequest))
    (c : Compilation) (hc : ((LinkUnit.create b).serve requests).compilation = some c) :
    c.Tabled ((LinkUnit.create b).added requests) ∧
    (∀ (s : Surroundings) (r : UnitRequest) (index : Option Nat) (v : LinkUnit),
      ((LinkUnit.create b).serve requests).request s r = (.ok index, v) →
        ∃ d item, v.compilation = some d ∧ r.build s.library c.options = .ok item ∧
          c.PrefixOf d ∧
          index = (if item.parameters = [] then none else some c.layouts.length) ∧
          d.functions = c.functions ++ item.rows index ∧
          ∀ m path name, r = .distribution m path name → (item.rows index).length = 4) ∧
    (∀ (closing : Backend) (a : Artifact) (v : LinkUnit),
      closing.closeUnit ((LinkUnit.create b).serve requests) = (.ok a, v) → a.Lists c) := by
  have htabled : c.Tabled ((LinkUnit.create b).added requests) := by
    have hstart : ∀ c, (LinkUnit.create b).compilation = some c → c.Tabled [] := by
      rintro c ⟨⟩
      exact Compilation.start_tabled b.target b.options true
    exact LinkUnit.serve_tabled hstart requests c hc
  refine ⟨htabled, ?_, ?_⟩
  · intro s r index v hr
    obtain ⟨d, item, hd, hbuild, hadd⟩ := LinkUnit.request_ok hc hr
    obtain ⟨layout, rfl, hextended⟩ :=
      Compilation.compile_extended (Compilation.add_eq_ok_iff.mp hadd).2
    refine ⟨d, item, hd, hbuild, hextended.prefixOf, hextended.index_eq _, hextended.rows, ?_⟩
    rintro m path name rfl
    obtain ⟨distribution, rfl⟩ := UnitRequest.build_distribution hbuild
    rfl
  · intro closing a v hclose
    obtain ⟨d, hd, hfinish⟩ := Backend.finish_of_closeUnit hclose
    cases hc.symm.trans hd
    exact htabled.finish hfinish

/-- A material whose distribution reads a parameter. -/
def varnish (level : Float32) : Material where
  name := "varnish"
  graph := ⟨#[⟨.parameter 0, .color⟩, ⟨.constant (.float level), .float⟩,
    ⟨.call "df::diffuse_reflection_bsdf" [0, 1], .bsdf⟩]⟩
  fields := OrderedMap.empty.insert "surface" 2
  parameters := [⟨"tint", .color, .color level level level⟩]

/-- A function without parameters. -/
def answer : Fragment :=
  { Fragment.empty "answer" .core with
    graph := ⟨#[⟨.constant (.int 42), .int⟩]⟩
    roots := some (.single 0) }

/-- A unit with the function and the distribution. -/
def varnishUnit (level : Float32) : LinkUnit :=
  (LinkUnit.create hostBackend).serve
    [(oneTexture, .fragment answer), (oneTexture, .distribution (varnish level) "surface" "coat")]

/-- A function without a block and four with block 0 are followed by one with block 1. -/
theorem unit_tables_grow_together_varnish :
    ∃ c, (varnishUnit 1).compilation = some c ∧
      c.functions.map (fun f => (f.name, f.argBlock)) =
        [("answer", none), ("coat_init", some 0), ("coat_sample", some 0),
          ("coat_evaluate", some 0), ("coat_pdf", some 0)] ∧
      c.layouts.length = 1 ∧ (c.functions.map (·.name)).Nodup ∧
      (∃ v d, (varnishUnit 1).request oneTexture (.fields lacquer ["tint", "steps"] "both")
          = (.ok (some 1), v) ∧ v.compilation = some d ∧ c.PrefixOf d) ∧
      ∃ a v, hostBackend.closeUnit (varnishUnit 1) = (.ok a, v) ∧ a.Lists c := by
  have hrows : ∀ level, (varnishUnit level).compilation.map
      (fun c => (c.functions.map (fun f => (f.name, f.argBlock)), c.layouts.length))
        = some ([("answer", none), ("coat_init", some 0), ("coat_sample", some 0),
          ("coat_evaluate", some 0), ("coat_pdf", some 0)], 1) := by
    intro level
    cbv
  have hnext : ∀ level, ((varnishUnit level).request oneTexture
      (.fields lacquer ["tint", "steps"] "both")).1 = .ok (some 1) := by
    intro level
    cbv
  have hclosed : ∀ level, (hostBackend.closeUnit (varnishUnit level)).1.map (·.functions.length)
      = .ok 5 := by
    intro level
    cbv
  obtain ⟨c, hc, hlists⟩ := Option.map_eq_some_iff.mp (hrows 1)
  obtain ⟨hfunctions, hlayouts⟩ := Prod.mk.inj hlists
  obtain ⟨htabled, hrequest, hclose⟩ := unit_tables_grow_together hostBackend _ c hc
  obtain ⟨d, -, hd, -, hprefix, -⟩ := hrequest _ _ _ _ (Prod.ext (hnext 1) rfl)
  obtain ⟨a, ha, -⟩ := exists_of_bind_eq_ok (hclosed 1)
  have hartifact : hostBackend.closeUnit (varnishUnit 1) = (.ok a, _) := Prod.ext ha rfl
  exact ⟨c, hc, hfunctions, hlayouts, htabled.distinct, ⟨_, d, Prod.ext (hnext 1) rfl, hd, hprefix⟩,
    a, _, hartifact, hclose _ a _ hartifact⟩

end Shading
