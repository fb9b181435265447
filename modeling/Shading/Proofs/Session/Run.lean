import Shading.Proofs.Session.Rollback

/-!
# Invariants of link units

What holds of a fresh unit and is kept by every item that is added holds of the unit after
any requests, failed ones among them: a request that fails changes the messages only.

Main definitions:

- `Compilation.Grows` says that a compile appended layouts and values to those of another.
- `LinkUnit.serve` is the unit after requests.

Main results:

- Theorem `LinkUnit.serve_induction`: invariants of the compile of a unit.
- Theorem `LinkUnit.serve_grows`: requests leave the layouts and values that are there.
- Theorem `Compilation.block_of_compile`: where the parameters of an item are laid out.
- Theorem `Compilation.finish_accepted`: validated shader text has passed the check.
-/

namespace Shading

open List

theorem Compilation.build_of_parameterLayout {c : Compilation} {item : Compilable} {l : Layout}
    (h : c.parameterLayout item = .ok (some l)) :
    Layout.build item.parameters c.target.rules = .ok l := by
  unfold parameterLayout at h
  split at h
  · cases hbuild : Layout.build item.parameters c.target.rules with
    | error e =>
      rw [hbuild] at h
      cases h
    | ok l' =>
      rw [hbuild] at h
      cases h
      rfl
  · cases h

/-- Code that is generated was emitted, and was not refused if it should be checked. -/
theorem Program.emitChecked_eq_ok_iff [ShaderCheck] {p : Program} {target : TargetKind}
    {o : Options} {code : Emitted} : p.emitChecked target o = .ok code ↔
      p.emit target o.outputFormat = .ok code ∧
        (o.validateOutput = true → code.refusal? (p.routines.map (·.name)) = none) := by
  unfold emitChecked
  cases p.emit target o.outputFormat with
  | error e => simp [bind, Except.bind]
  | ok emitted =>
    cases o.validateOutput with
    | false => simp [bind, Except.bind, pure, Except.pure]
    | true =>
      cases hrefusal : emitted.refusal? (p.routines.map (·.name)) with
      | none =>
        simp only [bind, Except.bind, if_true, hrefusal, true_implies]
        exact ⟨fun h => ⟨h, Except.ok.inj h ▸ hrefusal⟩, And.left⟩
      | some e =>
        simp only [bind, Except.bind, if_true, hrefusal, true_implies]
        constructor
        · intro h
          cases h
        · rintro ⟨h, hnone⟩
          rw [← Except.ok.inj h, hrefusal] at hnone
          cases hnone

namespace Compilation

/-- A compile went on from another one: layouts and the values of their blocks were
appended. -/
structure Grows (c d : Compilation) : Prop where
  target : d.target = c.target
  layouts : c.layouts <+: d.layouts
  blockValues : c.blockValues <+: d.blockValues

variable {c d e : Compilation} {s : Surroundings} {item : Compilable}

theorem Grows.refl (c : Compilation) : c.Grows c :=
  ⟨rfl, prefix_refl _, prefix_refl _⟩

theorem Grows.trans (hcd : c.Grows d) (hde : d.Grows e) : c.Grows e :=
  ⟨hde.target.trans hcd.target, hcd.layouts.trans hde.layouts,
    hcd.blockValues.trans hde.blockValues⟩

theorem Agrees.grows (h : c.Agrees d) : c.Grows d := by
  unfold Agrees at h
  rw [← h]
  exact ⟨rfl, prefix_refl _, prefix_refl _⟩

theorem compile_grows {index : Option Nat} (h : c.compile s item = (.ok index, d)) : c.Grows d := by
  obtain ⟨layout, assembly, -, -, -, rfl⟩ := compile_eq_ok_iff.mp h
  exact ⟨rfl, prefix_append _ _, prefix_append _ _⟩

/-- The parameters of an item that was given an index are laid out at that index in every
compile that went on from there, and so are their values. -/
theorem block_of_compile (hc : c.Balanced) {k : Nat} (h : c.compile s item = (.ok (some k), d))
    (he : d.Grows e) :
    ∃ l, Layout.build item.parameters e.target.rules = .ok l ∧ e.layouts[k]? = some l ∧
      e.blockValues[k]? = some item.argumentValues := by
  have hc : c.blockValues.length = c.layouts.length := hc
  obtain ⟨layout, assembly, hlayout, hindex, -, rfl⟩ := compile_eq_ok_iff.mp h
  obtain ⟨l, rfl, rfl⟩ := Option.map_eq_some_iff.mp hindex.symm
  obtain ⟨rest, hrest⟩ := he.layouts
  obtain ⟨more, hmore⟩ := he.blockValues
  refine ⟨l, ?_, ?_, ?_⟩
  · rw [he.target]
    exact build_of_parameterLayout hlayout
  · simp [← hrest, accept]
  · simp [← hmore, accept, ← hc]

theorem start_balanced (target : TargetKind) (o : Options) (linkUnit : Bool) :
    (start target o linkUnit).Balanced :=
  rfl

/-- A compile is finished if it has functions and their code is not refused. -/
theorem finish_eq_ok_iff [ShaderCheck] {a : Artifact} : c.finish = .ok a ↔
    c.functions.isEmpty = false ∧ ∃ code : Emitted,
      c.assembly.finish.emitChecked c.target c.options = .ok code ∧
      a = Artifact.assemble (c.parts c.assembly.finish code) c.blockValues := by
  unfold finish
  cases c.functions.isEmpty with
  | true => simp
  | false =>
    dsimp only
    cases c.assembly.finish.emitChecked c.target c.options <;> simp [eq_comm]

/-- What a compile that is finished hands out. -/
theorem finish_eq_ok [ShaderCheck] {a : Artifact} (h : c.finish = .ok a) :
    c.functions.isEmpty = false ∧ ∃ code : Emitted,
      c.assembly.finish.emit c.target c.options.outputFormat = .ok code ∧
      a = Artifact.assemble (c.parts c.assembly.finish code) c.blockValues := by
  obtain ⟨hfunctions, code, hcode, ha⟩ := finish_eq_ok_iff.mp h
  exact ⟨hfunctions, code, (Program.emitChecked_eq_ok_iff.mp hcode).1, ha⟩

/-- If output is validated, shader text that is handed out has passed the check. -/
theorem finish_accepted [ShaderCheck] {a : Artifact} (h : c.finish = .ok a)
    (htarget : c.target = .gpu) (hformat : c.options.outputFormat = .assembly)
    (hvalidate : c.options.validateOutput = true) :
    ∃ m, c.assembly.finish.shader = .ok m ∧ a.body = .text .assembly m.source ∧
      ShaderCheck.refusal? m.withStubs (c.assembly.routines.map (·.name)) = none := by
  obtain ⟨-, code, hcode, rfl⟩ := finish_eq_ok_iff.mp h
  obtain ⟨hemit, haccepted⟩ := Program.emitChecked_eq_ok_iff.mp hcode
  rw [htarget, hformat] at hemit
  cases hshader : c.assembly.finish.shader with
  | error e =>
    rw [Program.emit, hshader] at hemit
    cases hemit
  | ok m =>
    rw [Program.emit, hshader] at hemit
    cases hemit
    have hnone : (ShaderCheck.refusal? m.withStubs (c.assembly.routines.map (·.name))).map
        ShaderError.refused = none := haccepted hvalidate
    exact ⟨m, rfl, rfl, Option.map_eq_none_iff.mp hnone⟩

end Compilation

/-- A unit that was closed with success was finished. -/
theorem Backend.finish_of_closeUnit [ShaderCheck] {b : Backend} {a : Artifact} {u closed : LinkUnit}
    (h : b.closeUnit u = (.ok a, closed)) : ∃ c, u.compilation = some c ∧ c.finish = .ok a := by
  unfold closeUnit at h
  split at h
  · cases h
  · rename_i c hopen
    split at h
    · cases h
    · exact ⟨c, hopen, congrArg Prod.fst h⟩

namespace LinkUnit

/-- The unit after requests, each of which comes with its own surroundings. -/
def serve (u : LinkUnit) (requests : List (Surroundings × UnitRequest)) : LinkUnit :=
  requests.foldl (fun u r => (u.request r.1 r.2).2) u

/-- Invariants of the compile of a unit.  The step is about items that compile; a failed
request leaves a compile that agrees with the one before. -/
theorem serve_induction {valid : Surroundings × UnitRequest → Prop} {P : Compilation → Prop}
    (hagrees : ∀ {c d : Compilation}, c.Agrees d → P c → P d)
    (hadd : ∀ {c d : Compilation} {r : Surroundings × UnitRequest} {item : Compilable}
      {index : Option Nat}, P c → valid r → r.2.build r.1.library c.options = .ok item →
      c.refusal? item = none → c.compile r.1 item = (.ok index, d) → P d)
    {u : LinkUnit} (hbalanced : ∀ c, u.compilation = some c → c.Balanced)
    (hu : ∀ c, u.compilation = some c → P c) (requests : List (Surroundings × UnitRequest))
    (hvalid : ∀ r ∈ requests, valid r) : ∀ c, (u.serve requests).compilation = some c → P c := by
  induction requests generalizing u with
  | nil => exact hu
  | cons r rest ih =>
    have hrest := fun r' hr' => hvalid r' (mem_cons_of_mem r hr')
    change ∀ c, (serve (u.request r.1 r.2).2 rest).compilation = some c → P c
    cases hopen : u.compilation with
    | none =>
      rw [request_closed hopen]
      exact ih hbalanced hu hrest
    | some c =>
      have hc := hbalanced c hopen
      rcases hr : u.request r.1 r.2 with ⟨e | index, v⟩
      · obtain ⟨d, hd, hagree, _⟩ := request_error hopen hc hr
        refine ih (fun d' hd' => ?_) (fun d' hd' => ?_) hrest
        all_goals
          rw [hd] at hd'
          cases hd'
        · exact hagree.symm.balanced hc
        · exact hagrees hagree.symm (hu c hopen)
      · obtain ⟨d, item, hd, hbuild, hadded⟩ := request_ok hopen hr
        have hok := Compilation.add_eq_ok_iff.mp hadded
        refine ih (fun d' hd' => ?_) (fun d' hd' => ?_) hrest
        all_goals
          rw [hd] at hd'
          cases hd'
        · exact (Compilation.add_ok hadded).2 hc
        · exact hadd (hu c hopen) (hvalid r mem_cons_self) hbuild hok.1 hok.2

/-- An open unit has one compile. -/
theorem forall_compilation {u : LinkUnit} {c : Compilation} (hu : u.compilation = some c)
    {P : Compilation → Prop} (hP : P c) : ∀ d, u.compilation = some d → P d := by
  intro d hd
  rw [hu] at hd
  cases hd
  exact hP

/-- Requests, failed ones among them, leave the layouts and values that are there. -/
theorem serve_grows {u : LinkUnit} {c d : Compilation} (hu : u.compilation = some c)
    (hc : c.Balanced) (requests : List (Surroundings × UnitRequest))
    (hd : (u.serve requests).compilation = some d) : c.Grows d ∧ d.Balanced := by
  refine @serve_induction (fun _ => True) (fun d => c.Grows d ∧ d.Balanced) ?_ ?_ u
    (forall_compilation hu hc) (forall_compilation hu ⟨.refl c, hc⟩) requests (fun _ _ => trivial)
    d hd
  · intro d e hagrees hd
    exact ⟨hd.1.trans hagrees.grows, hagrees.balanced hd.2⟩
  · intro d e r item index hd _ _ _ hcompile
    exact ⟨hd.1.trans (Compilation.compile_grows hcompile),
      (Compilation.compile_ok hcompile).2 hd.2⟩

/-- A request that a unit serves with success compiles an item. -/
theorem compile_of_request {b : Backend} {before : List (Surroundings × UnitRequest)}
    {s : Surroundings} {q : UnitRequest} {index : Option Nat} {u : LinkUnit}
    (h : ((create b).serve before).request s q = (.ok index, u)) :
    ∃ (c d : Compilation) (item : Compilable), ((create b).serve before).compilation = some c ∧
      c.Balanced ∧ q.build s.library c.options = .ok item ∧ c.refusal? item = none ∧
      c.compile s item = (.ok index, d) ∧ u.compilation = some d ∧ d.Balanced := by
  cases hopen : ((create b).serve before).compilation with
  | none =>
    rw [request_closed hopen] at h
    cases h
  | some c =>
    obtain ⟨-, hc⟩ := serve_grows rfl (Compilation.start_balanced _ _ _) before hopen
    obtain ⟨d, item, hd, hbuild, hadded⟩ := request_ok hopen h
    obtain ⟨hrefusal, hcompile⟩ := Compilation.add_eq_ok_iff.mp hadded
    exact ⟨c, d, item, rfl, hc, hbuild, hrefusal, hcompile, hd,
      (Compilation.compile_ok hcompile).2 hc⟩

end LinkUnit

end Shading
