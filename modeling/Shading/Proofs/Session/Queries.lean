import Shading.Proofs.Session.Origin
import Shading.Proofs.Session.Resources
import Shading.Proofs.Session.Sharing

/-!
# Questions about resources

A question about a literal resource is answered when it is lowered, and leaves a constant.  A
question about any other resource is left to the renderer, which has an index and the tables of the
artifact.  The constant is what the store reports of the resource.  The tables tell the same,
except of a resource that the store describes and does not report as valid: they refer to it by
index 0, and nothing is known there.

Main definitions:

- `ResourceAttributes.reply` is the answer to a question by someone who has the attributes.
- `ResourceMap.Writes` and `ResourceMap.Folds` say what lowering leaves of a literal resource, and
  of a question about it.
- `Backend.Delivers` says that an artifact holds the code of an item.

Main results:

- `ResourceQuery.literal?_answer`: the constant that a question is folded to.
- `Backend.Delivers.exists_compile`: the tables of an artifact and those of an item in it.
- `folded_queries_match_tables`: when the constants are those that the tables give.
-/

namespace Shading

open List

/-! ## Replies -/

/-- An answer to a question about a resource. -/
inductive Reply
  | number (n : Int)
  | real (x : Float32)
  | truth (b : Bool)

/-- Width, height and depth of a texture. -/
def ResourceMeta.extent : ResourceMeta → Nat × Nat × Nat
  | .texture _ width height depth => (width, height, depth)
  | _ => (0, 0, 0)

/-- Power and maximum of a light profile. -/
def ResourceMeta.emission : ResourceMeta → Float32 × Float32
  | .lightProfile power maximum => (power, maximum)
  | _ => (0, 0)

/-- The sides of a texture are integers of the program. -/
def ResourceMeta.Fits (m : ResourceMeta) : Prop :=
  m.extent.1 < 2 ^ 31 ∧ m.extent.2.1 < 2 ^ 31 ∧ m.extent.2.2 < 2 ^ 31

/-- The answer to a question about a resource of which the attributes are known. -/
def ResourceAttributes.reply (a : ResourceAttributes) : ResourceQuery → Reply
  | .texWidth => .number a.description.extent.1
  | .texHeight => .number a.description.extent.2.1
  | .texDepth => .number a.description.extent.2.2
  | .lightProfilePower => .real a.description.emission.1
  | .lightProfileMaximum => .real a.description.emission.2
  | .texIsValid | .lightProfileIsValid | .bsdfMeasurementIsValid => .truth a.valid

/-- Questions that are about nothing but validity. -/
def ResourceQuery.AsksValidity : ResourceQuery → Prop
  | .texIsValid | .lightProfileIsValid | .bsdfMeasurementIsValid => True
  | _ => False

/-- The constant that an operation is. -/
def Op.literal? : Op → Option Reply
  | .int n => some (.number n.toInt)
  | .float x => some (.real x)
  | .bool b => some (.truth b)
  | _ => none

/-- What a binding is asked for is what its attributes tell, if no valid resource has index 0. -/
theorem ResourceQuery.literal?_answer (q : ResourceQuery) {b : ResourceBinding}
    (hfits : b.attributes.description.Fits) (hindex : b.attributes.valid = true → b.index ≠ 0) :
    (q.answer b).2.literal? = some (b.attributes.reply q) := by
  obtain ⟨index, valid, description⟩ := b
  have hvalid : (valid && index != 0) = valid := by
    cases valid with
    | false => rfl
    | true => simpa using hindex rfl
  have htruth := congrArg (fun b => some (Reply.truth b)) hvalid
  have hnumber : ∀ {n : Nat}, n < 2 ^ 31 →
      some (Reply.number (Int32.ofNat n).toInt) = some (.number n) :=
    fun hn => congrArg (fun n => some (Reply.number n)) (Int32.toInt_ofNat_of_lt hn)
  cases description with
  | texture shape width height depth =>
    cases q with
    | texWidth => exact hnumber hfits.1
    | texHeight => exact hnumber hfits.2.1
    | texDepth => exact hnumber hfits.2.2
    | lightProfilePower | lightProfileMaximum => rfl
    | texIsValid | lightProfileIsValid | bsdfMeasurementIsValid => exact htruth
  | lightProfile power maximum | bsdfMeasurement =>
    cases q with
    | texIsValid | lightProfileIsValid | bsdfMeasurementIsValid => exact htruth
    | _ => rfl

/-! ## Lowering -/

namespace ResourceMap

/-- Lowering by a map of resources writes a literal as an index. -/
def Writes (m : ResourceMap) (v : Value) (index : Nat) : Prop :=
  ∀ (env : LowerEnv) (type : ValueType) (s : LowerState), env.resources = m →
    ∃ s', (lowerConstant env v type).run s = (.ok s.body.size, s') ∧
      s'.body = s.body.push ⟨.int, .int (Int32.ofNat index)⟩

/-- Lowering by a map of resources folds a question about a literal to a constant. -/
def Folds (m : ResourceMap) (v : Value) (q : ResourceQuery) (reply : Reply) : Prop :=
  ∀ (env : LowerEnv) (site : CallSite) (type : ValueType) (s : LowerState), env.resources = m →
    site.argNode? 0 = some ⟨.constant v, type⟩ → site.args.length = 1 →
    ∃ s' i, (lowerIntrinsic env site (.resource q)).run s = (.ok s.body.size, s') ∧
      s'.body = s.body.push i ∧ i.op.literal? = some reply

variable {m : ResourceMap} {v : Value} {ref : ResourceRef} {b : ResourceBinding}

theorem writes_of_find? (hv : v.resource? = some ref) (hb : m.find? ref = some b) :
    Writes m v b.index := by
  intro env type s henv
  have hlower : lowerConstant env v type = lowerResource env ref := by
    cases v <;> cases hv <;> rw [lowerConstant]
  rw [hlower, lowerResource, henv, hb]
  exact ⟨_, rfl, rfl⟩

theorem folds_of_find? (hv : v.resource? = some ref) (hb : m.find? ref = some b) {q : ResourceQuery}
    {reply : Reply} (hreply : (q.answer b).2.literal? = some reply) : Folds m v q reply := by
  intro env site type s henv hnode hargs
  have hbinding : constantBinding? env site = some b := by
    unfold constantBinding?
    rw [hnode, henv]
    change v.resource?.bind m.find? = some b
    rw [hv]
    exact hb
  change ∃ s' i, (lowerResourceQuery env site q).run s = _ ∧ _
  unfold lowerResourceQuery expectArgs
  rw [if_pos hargs, hbinding]
  exact ⟨_, _, rfl, rfl, hreply⟩

end ResourceMap

variable {item : Compilable} {s : Surroundings} {a : Artifact}

/-! ## Delivery -/

/-- An artifact holds the code of an item, which a unit was asked for or which was compiled by
itself.  All resources of the artifact are those of one store. -/
inductive Backend.Delivers [ShaderCheck] (b : Backend) (s : Surroundings) (item : Compilable)
    (a : Artifact) : Prop
  | unit {closer : Backend} {before later : List (Surroundings × UnitRequest)} {r : UnitRequest}
      {index : Option Nat} {u closed : LinkUnit} (hbefore : ∀ q ∈ before, q.1.store = s.store)
      (hlater : ∀ q ∈ later, q.1.store = s.store)
      (hbuild : r.build s.library b.options = .ok item)
      (hadd : ((LinkUnit.create b).serve before).request s r = (.ok index, u))
      (hclose : closer.closeUnit (u.serve later) = (.ok a, closed)) : b.Delivers s item a
  | item {index : Option Nat} {c : Compilation}
      (hadd : (Compilation.start b.target b.options false).add s item = (.ok index, c))
      (hfinish : c.finish = .ok a) : b.Delivers s item a

/-- An item was compiled on the way to the artifact that it is delivered with, against tables
which those of the artifact continue. -/
theorem Backend.Delivers.exists_compile [ShaderCheck] {b : Backend} (h : b.Delivers s item a) :
    ∃ (c d e : Compilation) (index : Option Nat), c.Indexed s.store ∧
      c.compile s item = (.ok index, d) ∧ d.assembly.routines <+: e.assembly.routines ∧
      d.tables.Extends e.tables ∧ e.Indexed s.store ∧ e.finish = .ok a := by
  cases h with
  | @unit closer before later r index u closed hbefore hlater hbuild hadd hclose =>
    obtain ⟨c, d, item', hopen, -, hbuild', -, hcompile, hu, hbalanced⟩ :=
      LinkUnit.compile_of_request hadd
    rw [(Builds.unit hopen).settled.options, hbuild] at hbuild'
    cases hbuild'
    obtain ⟨-, hc⟩ := LinkUnit.serve_continues rfl (Compilation.start_indexed _ _ _ _) hbefore
      hopen
    obtain ⟨e, he, hfinish⟩ := Backend.finish_of_closeUnit hclose
    obtain ⟨hroutines, -⟩ := LinkUnit.serve_extends hu hbalanced later he
    obtain ⟨hcontinues, he⟩ := LinkUnit.serve_continues hu
      (Compilation.compile_continues hc hcompile).2 hlater he
    exact ⟨c, d, e, index, hc, hcompile, hroutines, hcontinues.tables, he, hfinish⟩
  | @item index c hadd hfinish =>
    have hstart := Compilation.start_indexed b.target b.options false s.store
    have hcompile := (Compilation.add_eq_ok_iff.mp hadd).2
    exact ⟨_, c, c, index, hstart, hcompile, prefix_refl _, .refl _,
      (Compilation.compile_continues hstart hcompile).2, hfinish⟩

/-! ## Agreement -/

/-- What lowering by a map makes of a literal resource, and what the tables of an artifact tell of
it: `index` is the index by which code refers to it, and `row` the row there. -/
structure Artifact.Represents (a : Artifact) (store : AssetStore) (map : ResourceMap) (v : Value)
    (ref : ResourceRef) (index : Nat) (row : ResourceEntry) : Prop where
  listed : (a.resources.table ref.kind)[index]? = some row
  written : map.Writes v index
  /-- A question is folded to what the store reports. -/
  folded : ∀ q, map.Folds v q ((store.lookup ref).reply q)
  /-- The row gives the same answer. -/
  agrees : ¬ store.Withdraws ref → ∀ q, map.Folds v q (row.attributes.reply q)
  /-- Whether a resource is valid, the row always tells. -/
  validity : ∀ q, ResourceQuery.AsksValidity q → map.Folds v q (row.attributes.reply q)
  /-- Else a withdrawn resource has the row that tells nothing. -/
  withdrawn : store.Withdraws ref → row = .reserved ref.kind

/-- A binding that stands for a resource leads to the row that stands for it. -/
theorem Artifact.exists_represents {store : AssetStore} {map : ResourceMap}
    {v : Value} {ref : ResourceRef} {b : ResourceBinding} (hsound : a.resources.Sound store)
    (hv : v.resource? = some ref) (hb : map.find? ref = some b)
    (hrepresents : a.resources.Represents store ref b)
    (hfits : (store.lookup ref).description.Fits) :
    ∃ row, a.Represents store map v ref b.index row := by
  obtain ⟨hindex, hattributes⟩ := hrepresents
  obtain ⟨row, hrow, hagrees, hwithdrawn⟩ := hsound.row_attributes hindex
  have hvalid : b.attributes.valid = true → b.index ≠ 0 := by
    intro hvalid
    rw [hattributes, ← AssetStore.knows_eq_valid] at hvalid
    unfold ResourceTables.Assigns at hindex
    rw [if_pos hvalid] at hindex
    exact Nat.pos_iff_ne_zero.mp hindex.1
  have hfolded : ∀ q, map.Folds v q ((store.lookup ref).reply q) := by
    intro q
    rw [← hattributes] at hfits ⊢
    exact ResourceMap.folds_of_find? hv hb (q.literal?_answer hfits hvalid)
  have hsame : row.attributes.valid = (store.lookup ref).valid := by
    by_cases hw : store.Withdraws ref
    · rw [hwithdrawn hw, ← AssetStore.knows_eq_valid, Bool.eq_false_iff.mpr hw.not_knows]
      cases ref.kind <;> rfl
    · rw [hagrees hw]
  refine ⟨row, hrow, ResourceMap.writes_of_find? hv hb, hfolded, ?_, ?_, hwithdrawn⟩
  · intro hw q
    rw [hagrees hw]
    exact hfolded q
  · intro q hq
    have hreply : row.attributes.reply q = (store.lookup ref).reply q := by
      cases q <;> first | exact congrArg Reply.truth hsame | cases hq
    rw [hreply]
    exact hfolded q

/-- Questions about literal resources agree with the tables of the artifact, except about the
description of what the store does not report as valid.  An item that an artifact was delivered
with was lowered by a map which writes every literal resource as an index, and folds every question
about it to what the store reports.  This is what the row at that index tells, if the resource is
valid or unknown, or the question is about validity; and else the row is the first one. -/
theorem folded_queries_match_tables [ShaderCheck] {b : Backend}
    (h : b.Delivers s item a) (hunbound : item.Unbound) :
    ∃ (c d e : Compilation) (map : ResourceMap) (block : Option BlockBinding),
      c.lowerItem s item map block = (.ok (), d.assembly) ∧
      d.assembly.routines <+: e.assembly.routines ∧ e.finish = .ok a ∧
      ∀ v ref, item.Meets s.library v → v.resource? = some ref →
        (s.store.lookup ref).description.Fits →
        ∃ index row, a.Represents s.store map v ref index row := by
  obtain ⟨c, d, e, index, hc, hcompile, hroutines, hgrows, he, hfinish⟩ := h.exists_compile
  obtain ⟨layout, assembly, -, -, hlower, rfl⟩ := Compilation.compile_eq_ok_iff.mp hcompile
  have hresources : a.resources = e.tables := by
    obtain ⟨-, code, -, rfl⟩ := Compilation.finish_eq_ok hfinish
    rfl
  refine ⟨_, c.accept item _ layout assembly, e, _, _, hlower, hroutines, hfinish, ?_⟩
  intro v ref hmeets hv hfits
  have href : ref ∈ v.resources := @Value.mem_resources_of_part? v v [] ref rfl hv
  obtain ⟨binding, hb, hrepresents⟩ :=
    Compilable.exists_binding hc.tables hunbound (.inl hmeets) href
  have hindex := hrepresents.index.mono hgrows
  have hsound := he.tables
  rw [← hresources] at hindex hsound
  obtain ⟨row, hrow⟩ := Artifact.exists_represents hsound hv hb ⟨hindex, hrepresents.attributes⟩
    hfits
  exact ⟨binding.index, row, hrow⟩

/-- A function that asks for the width of a texture, and has its name. -/
def probe (name : String) : Fragment where
  name
  context := .core
  graph := ⟨#[⟨.constant (.texture (some name) .flat), .texture .flat⟩,
    ⟨.call "tex::width" [0], .int⟩]⟩
  roots := some (.single 1)
  parameters := []
  copied := OrderedMap.empty
  uniform := none
  resources := OrderedMap.empty

/-- Surroundings that know one texture, and describe another one that is not valid. -/
def tornTexture : Surroundings :=
  ⟨oneTexture.store.insert .texture "torn" ⟨false, .texture .flat 64 32 1⟩, .empty⟩

theorem probe_unbound (name : String) : (Compilable.function (probe name) .lambda).Unbound := by
  intro f hf
  rw [mem_singleton.mp hf]
  rfl

theorem probe_meets (name : String) :
    (Compilable.function (probe name) .lambda).Meets tornTexture.library
      (.texture (some name) .flat) :=
  ⟨probe name, mem_cons_self,
    .constant (.arg (.root mem_cons_self) rfl mem_cons_self) rfl⟩

/-- The texture that is there has the width of its row, also if the one that is not valid is asked
for in the same unit. -/
theorem folded_queries_match_tables_wood :
    (Compilable.function (probe "wood") .lambda).Unbound ∧
      ¬ tornTexture.store.Withdraws ⟨.texture, some "wood"⟩ ∧
      ∃ a, Backend.Delivers ⟨.native, unoptimized, true⟩ tornTexture
          (.function (probe "wood") .lambda) a ∧
        a.resources.textures.map (·.name) = ["", "wood"] ∧
        ∃ map index row, a.Represents tornTexture.store map (.texture (some "wood") .flat)
          ⟨.texture, some "wood"⟩ index row := by
  have hwood : ¬ tornTexture.store.Withdraws ⟨.texture, some "wood"⟩ := by
    rintro ⟨name, a, hname, hfind, hvalid⟩
    cases hname
    cases hfind
    cases hvalid
  have hadd : (((LinkUnit.create ⟨.native, unoptimized, true⟩).serve []).request tornTexture
      (.fragment (probe "wood"))).1 = .ok none := by
    cbv
  have htables : (Backend.closeUnit ⟨.native, unoptimized, true⟩
      ((((LinkUnit.create ⟨.native, unoptimized, true⟩).serve []).request tornTexture
        (.fragment (probe "wood"))).2.serve [(tornTexture, .fragment (probe "torn"))])).1.map
          (fun a => a.resources.textures.map (·.name)) = .ok ["", "wood"] := by
    cbv
  obtain ⟨a, hclose, hnames⟩ := exists_of_bind_eq_ok htables
  have hdelivers : Backend.Delivers ⟨.native, unoptimized, true⟩ tornTexture
      (.function (probe "wood") .lambda) a := by
    refine .unit (forall_mem_nil _) ?_ rfl (Prod.ext hadd rfl)
      (Prod.ext hclose rfl)
    intro q hq
    rw [mem_singleton.mp hq]
  obtain ⟨_, _, _, map, _, _, _, _, hliterals⟩ :=
    folded_queries_match_tables hdelivers (probe_unbound "wood")
  obtain ⟨index, row, hrow⟩ := hliterals _ _ (probe_meets "wood") rfl
    ⟨by decide, by decide, by decide⟩
  exact ⟨probe_unbound "wood", hwood, a, hdelivers, Except.ok.inj hnames, map, index, row, hrow⟩

/-- The texture that is not valid has the index 0, whose row tells a width of 0.  The question for
its width is folded to what the store reports. -/
theorem torn_width_is_not_that_of_its_row :
    tornTexture.store.Withdraws ⟨.texture, some "torn"⟩ ∧
      ∃ a, Backend.Delivers ⟨.native, unoptimized, true⟩ tornTexture
          (.function (probe "torn") .lambda) a ∧
        a.body.instructions = [#[⟨.int, .int 0⟩, ⟨.int, .int 64⟩]] ∧
        Op.literal? (.int 64) = some (.number 64) ∧
        a.resources.textures = [.reserved .texture] ∧
        (ResourceEntry.reserved .texture).attributes.reply .texWidth = .number 0 := by
  have hadd : ((Compilation.start .native unoptimized false).add tornTexture
      (.function (probe "torn") .lambda)).1 = .ok none := by
    cbv
  have hcode : ((Compilation.start .native unoptimized false).add tornTexture
      (.function (probe "torn") .lambda)).2.finish.map
        (fun a => (a.body.instructions, a.resources.textures))
          = .ok ([#[⟨.int, .int 0⟩, ⟨.int, .int 64⟩]], [.reserved .texture]) := by
    cbv
  obtain ⟨a, hfinish, hparts⟩ := exists_of_bind_eq_ok hcode
  obtain ⟨hbody, htable⟩ := Prod.mk.inj (Except.ok.inj hparts)
  exact ⟨⟨"torn", _, rfl, rfl, rfl⟩, a, .item (Prod.ext hadd rfl) hfinish, hbody, rfl, htable, rfl⟩

end Shading
