import Shading.Proofs.Code.Key
import Shading.Proofs.Resource.Tables
import Shading.Proofs.Session.Run

/-!
# Code that can be used again

An item that was compiled gives the code of every other item of the same key, also in a
session with another library, if the libraries agree on what is called: with the tables and
the argument values of the other item, it is the artifact that the other item compiles to.
Looking up the resources of an item before it is compiled changes nothing.

Main results:

- `Compilation.compile_bound`: an item compiles the same against tables that hold its
  resources already.
- `Compilation.compile_congr`: items of the same key compile alike.
- `Session.compileFresh_eq_restore`: what an item compiles to is restored from the code of
  another item of the same key.
-/

namespace Shading

open List

variable {ps ps' : List Parameter} {item : Compilable} {c : Compilation} {a : Artifact}

/-! ## Parameters -/

theorem Parameter.map_declared (h : ps'.map Parameter.declared = ps.map Parameter.declared)
    {α : Type} (g : String × ValueType → α) :
    ps'.map (fun p => g (p.name, p.type)) = ps.map fun p => g (p.name, p.type) := by
  have hmap := congrArg (List.map g) h
  rw [map_map, map_map] at hmap
  exact hmap

/-- A layout depends on the names and the types of the parameters. -/
theorem Layout.build_congr (h : ps'.map Parameter.declared = ps.map Parameter.declared)
    (rules : LayoutRules) : Layout.build ps' rules = Layout.build ps rules := by
  have hfind : ∀ ps : List Parameter, ps.findSome? (fun p => p.type.distribution?)
      = (ps.map Parameter.declared).findSome? fun d => d.2.distribution? := by
    intro ps
    rw [findSome?_map]
    rfl
  have hextents := Parameter.map_declared h fun d => d.2.extent rules
  have hshapes := Parameter.map_declared h fun d => d.2.shape rules
  have hnames := Parameter.map_declared h fun d => d.1
  unfold Layout.build
  rw [hfind, hfind, h, hextents, hshapes, hnames]

/-- So does the declaration of an argument block. -/
theorem Assembly.declareArgBlock_congr (h : ps'.map Parameter.declared = ps.map Parameter.declared)
    (a : Assembly) (l : Layout) : a.declareArgBlock ps' l = a.declareArgBlock ps l := by
  have hlength : ps'.length = ps.length := by
    have hlength := congrArg List.length h
    rwa [length_map, length_map] at hlength
  have hnames := Parameter.map_declared h fun d => d.1
  have htypes := Parameter.map_declared h fun d => d.2.storage
  unfold Assembly.declareArgBlock
  rw [hlength, hnames, htypes]

/-! ## Resources -/

theorem Compilable.bindResources_again {t t' : ResourceTables} {store : AssetStore}
    (h : t.Sound store) {lib : Library} (hext : (item.bindResources t store lib).1.Extends t') :
    item.bindResources t' store lib = (t', (item.bindResources t store lib).2) := by
  cases item with
  | function f kind =>
    have hagain := ResourceTables.bindFragment_again h hext
    simp only [bindResources, hagain]
  | distribution d =>
    have hagain := ResourceTables.bindDistribution_again h hext
    simp only [bindResources, hagain]

namespace Compilation

/-- An item compiles the same against tables that hold its resources already. -/
theorem compile_bound {s : Surroundings} (h : c.tables.Sound s.store) (item : Compilable) :
    compile { c with tables := (item.bindResources c.tables s.store s.library).1 } s item
      = c.compile s item := by
  have hagain := Compilable.bindResources_again h
    (.refl (item.bindResources c.tables s.store s.library).1)
  unfold compile
  simp only [hagain]
  rfl

/-! ## Items of the same key -/

section SameKey

variable {c : Compilation} {s s' : Surroundings} {item item' : Compilable}

theorem capturesParameters_congr
    (h : item'.parameters.map Parameter.declared = item.parameters.map Parameter.declared) :
    item'.main.capturesParameters = item.main.capturesParameters := by
  have hempty := congrArg List.isEmpty h
  rw [isEmpty_map, isEmpty_map] at hempty
  unfold Fragment.capturesParameters
  rw [← Compilable.parameters, hempty]
  rfl

theorem refusal?_congr (halike : item.Alike item')
    (hparameters : item'.parameters.map Parameter.declared
      = item.parameters.map Parameter.declared) (b : Bool) :
    refusal? { c with options := c.options.withConstants b } item' = c.refusal? item := by
  have hcaptures := capturesParameters_congr hparameters
  cases halike with
  | @function f f' kind h =>
    change f'.capturesParameters = f.capturesParameters at hcaptures
    unfold refusal?
    cases kind <;>
      simp only [Compilable.main, Compilable.name, Compilable.functionNames, h.rootNodes, h.name,
        hcaptures] <;> rfl
  | @distribution d d' hmain haux =>
    have hname : d'.name = d.name := hmain.name
    unfold refusal?
    simp only [Compilable.main, Compilable.name, Compilable.functionNames, hmain.rootNodes,
      hmain.name, hname]
    rfl

theorem parameterLayout_congr (hparameters : item'.parameters.map Parameter.declared
      = item.parameters.map Parameter.declared) (b : Bool) :
    parameterLayout { c with options := c.options.withConstants b } item'
      = c.parameterLayout item := by
  unfold parameterLayout
  rw [capturesParameters_congr hparameters, Layout.build_congr hparameters]

theorem declareBlock_congr (hstrings : c.options.mapStringsToIds = false)
    (hparameters : item'.parameters.map Parameter.declared
      = item.parameters.map Parameter.declared) (b : Bool) (layout : Option Layout) :
    declareBlock { c with options := c.options.withConstants b } item' layout
      = c.declareBlock item layout := by
  cases layout with
  | none => rfl
  | some layout =>
    have hstrings' : (c.options.withConstants b).mapStringsToIds = false := hstrings
    simp only [declareBlock, hstrings, hstrings', Bool.false_eq_true, if_false,
      Assembly.declareArgBlock_congr hparameters]

/-- Items that compute the same, with parameters that are declared alike, resources that are
bound alike and libraries that agree on what is called, compile alike: they differ in tables
and argument values at most. -/
theorem compile_congr {d : Compilation} {index : Option Nat}
    (hcalls : item.SharesCalls s.library s'.library)
    (hstrings : c.options.mapStringsToIds = false) (halike : item.Alike item')
    (hparameters : item'.parameters.map Parameter.declared
      = item.parameters.map Parameter.declared)
    (hresources : (item'.bindResources c.tables s'.store s'.library).2.main
      = (item.bindResources c.tables s.store s.library).2.main) (b : Bool)
    (h : c.compile s item = (.ok index, d)) :
    ∃ layout : Option Layout,
      d.layouts = c.layouts ++ layout.toList ∧ d.messages = c.messages ∧
      d.options = c.options ∧ d.target = c.target ∧
      compile { c with options := c.options.withConstants b } s' item' = (.ok index, { d with
        options := c.options.withConstants b
        tables := (item'.bindResources c.tables s'.store s'.library).1
        blockValues := c.blockValues ++ (layout.toList.map fun _ => item'.argumentValues) }) := by
  obtain ⟨layout, assembly, hlayout, rfl, hlower, rfl⟩ := compile_eq_ok_iff.mp h
  refine ⟨layout, rfl, rfl, rfl, rfl, compile_eq_ok_iff.mpr ⟨layout, assembly,
    (parameterLayout_congr hparameters b).trans hlayout, rfl, ?_, rfl⟩⟩
  unfold lowerLaidOut at hlower ⊢
  rw [declareBlock_congr hstrings hparameters b layout, hresources]
  exact (lowerItem_rebind { c with assembly := (c.declareBlock item layout).2 } s s' halike hcalls
    (fun _ _ _ _ => rfl) _ b).trans hlower

end SameKey

end Compilation

/-- The block of a single layout is filled with the first values. -/
theorem Artifact.assemble_single {p : CodeParts} {layout : Option Layout}
    (h : p.layouts = layout.toList) (values : List Value) :
    assemble p (layout.toList.map fun _ => values) = assemble p [values] := by
  unfold assemble
  rw [h]
  cases layout <;> rfl

namespace Compilation

/-- A compile with the code of another one is finished as its code is restored. -/
theorem finish_eq_restore [ShaderCheck] {d : Compilation} (h : d.finish = .ok a)
    {layout : Option Layout}
    (hlayouts : d.layouts = layout.toList) (hmessages : d.messages = c.messages)
    (htarget : d.target = c.target) {b : Bool} (hoptions : c.options = d.options.withConstants b)
    (hstrings : c.options.mapStringsToIds = false) (item : Compilable) :
    finish { d with
        options := c.options
        tables := c.tables
        blockValues := layout.toList.map fun _ => item.argumentValues }
      = .ok (c.restore (.ofArtifact a) item) := by
  obtain ⟨hfunctions, code, hcode, rfl⟩ := finish_eq_ok_iff.mp h
  have hcode : d.assembly.finish.emitChecked d.target c.options = .ok code := by
    rw [hoptions]
    exact hcode
  have hhead : d.layouts.head?.toList = d.layouts := by
    rw [hlayouts]
    cases layout <;> rfl
  refine finish_eq_ok_iff.mpr ⟨hfunctions, code, hcode, ?_⟩
  unfold restore
  simp only [Bool.false_eq_true, if_false, hstrings]
  rw [Artifact.assemble_single hlayouts]
  simp only [CachedCode.ofArtifact, Artifact.assemble, parts, hstrings, hmessages, htarget]
  rw [hhead]

end Compilation

namespace Session

theorem compileFresh_eq_ok [ShaderCheck] {s : Session} (h : s.compileFresh c item = .ok a) :
    ∃ index d, c.refusal? item = none ∧ c.compile s.surroundings item = (.ok index, d) ∧
      d.finish = .ok a := by
  unfold compileFresh at h
  split at h
  · cases h
  · rename_i index d hadd
    obtain ⟨hrefusal, hcompile⟩ := Compilation.add_eq_ok_iff.mp hadd
    exact ⟨index, d, hrefusal, hcompile, h⟩

/-- An item compiles the same after its resources were looked up. -/
theorem compileFresh_bound [ShaderCheck] (s : Session) (hc : c.tables.Sound s.surroundings.store)
    (item : Compilable) :
    s.compileFresh { c with tables := (item.bindResources c.tables s.surroundings.store
      s.surroundings.library).1 } item = s.compileFresh c item := by
  have hcompile := Compilation.compile_bound hc item
  generalize (item.bindResources c.tables s.surroundings.store s.surroundings.library).1
    = tables at hcompile ⊢
  have hrefusal : Compilation.refusal? { c with tables } item = c.refusal? item := rfl
  unfold compileFresh Compilation.add
  rw [hcompile, hrefusal]
  cases c.refusal? item with
  | some refusal => rfl
  | none =>
    rcases c.compile s.surroundings item with ⟨_ | index, failed⟩
    · -- The tables before the failure are given up, and the messages do not depend on them.
      dsimp only
      split <;> split <;> first | rfl | contradiction
    · rfl

/-- What an item compiles to is restored from the code of another item that computes the
same, with parameters that are declared alike, resources that are bound alike and libraries
that agree on what is called. -/
theorem compileFresh_eq_restore [ShaderCheck] {s s' : Session} {target : TargetKind} {o : Options}
    {b : Bool}
    {item' : Compilable} (hcalls : item.SharesCalls s.surroundings.library s'.surroundings.library)
    (hstrings : o.mapStringsToIds = false) (halike : item.Alike item')
    (hparameters : item'.parameters.map Parameter.declared = item.parameters.map Parameter.declared)
    (hresources :
      (item'.bindResources .initial s'.surroundings.store s'.surroundings.library).2.main
        = (item.bindResources .initial s.surroundings.store s.surroundings.library).2.main)
    (h : s.compileFresh (.start target o false) item = .ok a) :
    s'.compileFresh (.start target (o.withConstants b) false) item' = .ok (Compilation.restore
      { Compilation.start target (o.withConstants b) false with
        tables := (item'.bindResources .initial s'.surroundings.store
          s'.surroundings.library).1 } (.ofArtifact a) item') := by
  obtain ⟨index, d, hrefusal, hcompile, hfinish⟩ := compileFresh_eq_ok h
  obtain ⟨layout, hlayouts, hmessages, hoptions, htarget, hcompile'⟩ :=
    Compilation.compile_congr hcalls hstrings halike hparameters hresources b hcompile
  have hadd : Compilation.add (.start target (o.withConstants b) false) s'.surroundings item' = _ :=
    Compilation.add_eq_ok_iff.mpr
      ⟨(Compilation.refusal?_congr halike hparameters b).trans hrefusal, hcompile'⟩
  unfold compileFresh
  rw [hadd]
  exact Compilation.finish_eq_restore
    (c := { Compilation.start target (o.withConstants b) false with
      tables := (item'.bindResources .initial s'.surroundings.store s'.surroundings.library).1 })
    hfinish hlayouts hmessages htarget (congrArg (·.withConstants b) hoptions.symm) hstrings item'

end Session

end Shading
