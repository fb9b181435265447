import Shading.Proofs.Material.RoundTrip
import Shading.Proofs.Program.Container
import Shading.Proofs.Session.Origin

/-!
# Binary artifacts are read back

The code of an artifact in the binary format is the container of the program that was emitted.
It is read back as this program exactly if all literals of the program are finite: a literal that
is not is written as null, and the payload is refused.  Such literals need not stand in the
material, since folding may overflow.

Main results:

- `Generated.body_of_binary`: the code of an artifact in the binary format is a container.
- `Program.decode_encode_iff`: which programs are read back from their containers.
- `binary_artifacts_load_back`: which artifacts in the binary format are read back.
- `overflow_is_not_read_back`: an artifact that is not.
-/

namespace Shading

variable (x : Float32)

/-- The code of an artifact in the binary format is the container of the program. -/
theorem Generated.body_of_binary [ShaderCheck] {b : Backend} {a : Artifact} {c : Compilation}
    (h : Generated b a c) (hformat : b.options.outputFormat = .portableIrBinary)
    (htarget : b.target ≠ .native) : a.body = .binary c.assembly.finish.encode := by
  obtain ⟨code, hemit, hbody, -⟩ := h.exists_emitted
  rw [hformat] at hemit
  cases hb : b.target with
  | native => exact absurd hb htarget
  | gpu | portableIr =>
    rw [hb] at hemit
    cases hemit
    exact hbody

/-- Only programs with finite literals are read back; the payload of another one is refused. -/
theorem Program.decode_encode_of_not_isFinite {p : Program}
    (hdepth : p.toJson.depth ≤ Json.maxDepth) (h : ¬p.isFinite) :
    decode p.encode = .error .corruptPayload := by
  rw [decode_encode_eq p hdepth]
  cases hread : ofJson? p.toJson with
  | none => rfl
  | some p' => exact absurd (isFinite_of_ofJson? (by rw [hread]; rfl)) h

/-- A program is read back exactly if its literals are finite. -/
theorem Program.decode_encode_iff {p : Program} (hdepth : p.toJson.depth ≤ Json.maxDepth)
    (hfits : p.fits) (hsingles : ∀ x ∈ p.singles, Float32.finite x → Float32.ReadsBack x) :
    decode p.encode = .ok p ↔ p.isFinite := by
  constructor
  · intro h
    by_contra hfinite
    rw [decode_encode_of_not_isFinite hdepth hfinite] at h
    cases h
  · intro hfinite
    have hreads : ∀ x ∈ p.singles, Float32.ReadsBack x := by
      intro x hx
      obtain ⟨op, hop, hsingle⟩ := List.mem_filterMap.mp hx
      have hop := List.all_eq_true.mp hfinite op hop
      cases op <;> cases hsingle
      exact hsingles x hx hop
    rw [decode_encode_eq p hdepth, ofJson?_toJson hfits hfinite hreads]

/-- Every artifact in the binary format, for a target other than native code, holds the container
of the program that was emitted for it.  It is read back as this program exactly if the literals of
the program are finite, and refused otherwise. -/
theorem binary_artifacts_load_back [ShaderCheck] {b : Backend} {a : Artifact} (h : HandedOut b a)
    (hformat : b.options.outputFormat = .portableIrBinary) (htarget : b.target ≠ .native) :
    (∃ c, Generated b a c) ∧ ∀ c p, Generated b a c → c.assembly.finish = p →
      a.body = .binary p.encode ∧
      (p.toJson.depth ≤ Json.maxDepth →
        (p.fits → (∀ x ∈ p.singles, Float32.finite x → Float32.ReadsBack x) →
          (Program.decode a.body.bytes = .ok p ↔ p.isFinite)) ∧
        (¬p.isFinite → Program.decode a.body.bytes = .error .corruptPayload)) := by
  refine ⟨h.exists_generated, fun c p hc hp => ?_⟩
  have hbody := hc.body_of_binary hformat htarget
  rw [hp] at hbody
  refine ⟨hbody, fun hdepth => ?_⟩
  rw [hbody]
  exact ⟨Program.decode_encode_iff hdepth, Program.decode_encode_of_not_isFinite hdepth⟩

/-! ## Overflow -/

/-- A material that emits the square of a number. -/
def blaze (x : Float32) : Material where
  name := "blaze"
  graph := ⟨#[⟨.constant (.float x), .float⟩, ⟨.call "math::mul" [0, 0], .float⟩]⟩
  fields := ⟨[("emission", 1)]⟩
  parameters := []

/-- Code in the binary format, with the default options otherwise. -/
def binaryBackend : Backend :=
  ⟨.portableIr, { Options.default with outputFormat := .portableIrBinary }, true⟩

/-- The field of the material. -/
def blazeFragment (x : Float32) : Fragment :=
  { Fragment.empty "f" .core with
    graph := (blaze x).graph
    roots := some (.single 1)
    copied := ⟨[(0, 0), (1, 1)]⟩ }

/-- The program of the field: the square is left to the optimiser. -/
def blazeProgram (x : Float32) : Program where
  routines := [Routine.optimize { Routine.empty "f" .lambda .core with
    body := #[⟨.float, .float x⟩, ⟨.float, .binary .mul 0 0⟩]
    results := [1] } 2 true]
  roSegment := []
  strings := []
  argBlocks := []
  stateUsage := .none
  numTextureSpaces := 32
  numTextureResults := 0

theorem blaze_check : (blaze x).check = .ok () := by
  cbv

theorem blaze_loads {x : Float32} (hfinite : Float32.finite x) (hreads : Float32.ReadsBack x)
    (hdepth : (blaze x).toJson.depth ≤ Json.maxDepth) :
    Material.loadText (blaze x).toJson.text = .ok (blaze x) := by
  have hliterals : (blaze x).isFinite := by
    simp [blaze, Material.isFinite, Node.isFinite, Value.isFinite, Value.flatten,
      Value.isFiniteHere, hfinite]
  have hsingles : ∀ y ∈ (blaze x).singles, Float32.ReadsBack y := by
    simp [blaze, Material.singles, Node.singles, Value.singles, Value.flatten, Value.singlesHere,
      hreads]
  have hread := Material.ofJson?_toJson (m := blaze x) rfl hliterals hsingles
    (by simp [blaze, OrderedMap.Ascending])
  simp only [Material.loadText, Material.load, Json.parse?_text hdepth, Option.bind_some, hread,
    blaze_check]

theorem blaze_build (lib : Library) :
    UnitRequest.build (.field (blaze x) "emission" "f") lib binaryBackend.options
      = .ok (.function (blazeFragment x) .lambda) := by
  cbv

theorem blaze_bound :
    (Compilable.function (blazeFragment x) .lambda).bindResources .initial oneTexture.store
      oneTexture.library = (.initial, .function .empty) := by
  cbv

theorem blaze_lowered (o : Options) (ro : Bool) (rules : LayoutRules) :
    (Assembly.fragmentJob ⟨o, Library.empty, ro, rules⟩ (blazeFragment x) .empty .lambda
        none).code.run ⟨.empty, #[], .none⟩
      = (.ok ⟨[1], []⟩, ⟨.empty, #[⟨.float, .float x⟩, ⟨.float, .binary .mul 0 0⟩], .none⟩) := by
  cbv

theorem blaze_added (ro : Bool) (rules : LayoutRules) :
    (Assembly.empty binaryBackend.options).addFragment
      ⟨binaryBackend.options, Library.empty, ro, rules⟩ (blazeFragment x) .empty .lambda none
      = (.ok (), { Assembly.empty binaryBackend.options with
          routines := (blazeProgram x).routines }) := by
  have hrun := blaze_lowered x binaryBackend.options ro rules
  refine Assembly.addJobs_eq_ok_iff.mpr ⟨_, _, _, rfl,
    .cons (Assembly.lowerRoutine_eq_ok_iff.mpr ⟨_, _, hrun, rfl, rfl⟩) .nil, ?_⟩
  have husage : (Assembly.empty binaryBackend.options).usage.union .none = .none := rfl
  dsimp only
  rw [husage]
  rfl

theorem LinkUnit.request_of_add {u : LinkUnit} {s : Surroundings} {r : UnitRequest}
    {c d : Compilation} {item : Compilable} {result : Except CompileError (Option Nat)}
    (hu : u.compilation = some c) (hbuild : r.build s.library c.options = .ok item)
    (hadd : c.add s item = (result, d)) : u.request s r = (result, ⟨some d⟩) := by
  unfold request add
  rw [hu]
  dsimp only
  rw [hbuild]
  dsimp only
  rw [hadd]

/-- The field is compiled into a unit. -/
theorem blaze_compiled :
    ∃ c : Compilation, ((LinkUnit.create binaryBackend).serve
        [(oneTexture, .field (blaze x) "emission" "f")]).compilation = some c ∧
      c.target = .portableIr ∧ c.options = binaryBackend.options ∧
      c.functions.isEmpty = false ∧ c.assembly.finish = blazeProgram x := by
  have hrefusal : (Compilation.start .portableIr binaryBackend.options true).refusal?
      (.function (blazeFragment x) .lambda) = none := by
    cbv
  have hbound : ((Compilable.function (blazeFragment x) .lambda).bindResources .initial
      oneTexture.store oneTexture.library).2.main = .empty := by
    rw [blaze_bound]
    rfl
  have hlower : (Compilation.start .portableIr binaryBackend.options true).lowerLaidOut oneTexture
      (.function (blazeFragment x) .lambda) _ none = _ := hbound ▸ blaze_added x _ _
  have hcompile := Compilation.compile_eq_ok_iff.mpr ⟨none, _, rfl, rfl, hlower, rfl⟩
  have hadd := Compilation.add_eq_ok_iff.mpr ⟨hrefusal, hcompile⟩
  have hrequest := LinkUnit.request_of_add (u := .create binaryBackend) rfl
    (blaze_build x oneTexture.library) hadd
  exact ⟨_, congrArg (fun r => r.2.compilation) hrequest, rfl, rfl, rfl, rfl⟩

/-- The field of the material is handed out. -/
theorem blaze_handedOut :
    ∃ a c, HandedOut binaryBackend a ∧ Generated binaryBackend a c ∧
      c.assembly.finish = blazeProgram x := by
  obtain ⟨c, hopen, htarget, hoptions, hfunctions, hprogram⟩ := blaze_compiled x
  have hfinish : c.finish = .ok (Artifact.assemble
      (c.parts (blazeProgram x) ((blazeProgram x).emitPortable .portableIrBinary))
      c.blockValues) := by
    rw [← hprogram]
    refine Compilation.finish_eq_ok_iff.mpr ⟨hfunctions, _,
      Program.emitChecked_eq_ok_iff.mpr ⟨?_, fun _ => rfl⟩, rfl⟩
    rw [htarget, hoptions]
    rfl
  have hclose : binaryBackend.closeUnit ((LinkUnit.create binaryBackend).serve
      [(oneTexture, .field (blaze x) "emission" "f")]) = (c.finish, ⟨none⟩) := by
    unfold Backend.closeUnit
    rw [hopen]
    dsimp only
    rw [htarget]
    rfl
  rw [hfinish] at hclose
  exact ⟨_, c, .unit hclose, .fresh (.unit hopen) hfinish, hprogram⟩

/-- The square of two is read back. -/
theorem binary_artifacts_load_back_two :
    ∃ a, HandedOut binaryBackend a ∧
      Program.decode a.body.bytes = .ok (blazeProgram (Float32.ofBits 0x40000000)) := by
  obtain ⟨a, c, ha, hc, hp⟩ := blaze_handedOut (Float32.ofBits 0x40000000)
  obtain ⟨-, hread⟩ := binary_artifacts_load_back ha rfl (by decide)
  have hdepth : (blazeProgram (Float32.ofBits 0x40000000)).toJson.depth ≤ Json.maxDepth := by
    decide +kernel
  have hsingles : ∀ x ∈ (blazeProgram (Float32.ofBits 0x40000000)).singles,
      Float32.finite x → Float32.ReadsBack x := by
    decide +kernel
  refine ⟨a, ha, ((hread c _ hc hp).2 hdepth).1 ?_ hsingles |>.mpr ?_⟩
  · decide +kernel
  · decide +kernel

/-- A material that is accepted and has finite literals, of which the square overflows.  The
artifact in the binary format is handed out, and refused when it is read. -/
theorem overflow_is_not_read_back :
    Material.loadText (blaze (Float32.ofBits 0x7f61b1e6)).toJson.text
        = .ok (blaze (Float32.ofBits 0x7f61b1e6)) ∧
      (blaze (Float32.ofBits 0x7f61b1e6)).isFinite ∧
      ∃ a, HandedOut binaryBackend a ∧
        (∃ c, Generated binaryBackend a c ∧
          c.assembly.finish = blazeProgram (Float32.ofBits 0x7f61b1e6)) ∧
        Program.decode a.body.bytes = .error .corruptPayload := by
  obtain ⟨a, c, ha, hc, hp⟩ := blaze_handedOut (Float32.ofBits 0x7f61b1e6)
  have hbody := hc.body_of_binary rfl (by decide)
  rw [hp] at hbody
  have hloads := blaze_loads (x := Float32.ofBits 0x7f61b1e6) (by decide) (by decide +kernel)
    (by decide +kernel)
  refine ⟨hloads, by decide, a, ha, ⟨c, hc, hp⟩, ?_⟩
  rw [hbody]
  exact Program.decode_encode_of_not_isFinite (by decide +kernel) (by decide +kernel)

end Shading
