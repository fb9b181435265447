import Mathlib
import Shading.Session.Basic

/-!
# Failed requests leave no trace in a link unit

A request that fails halfway has changed the program, the resource tables and the
strings of a unit by then.  This module proves that the roll-back undoes all of it, that
the code of a unit is therefore that of its successful requests alone, and that a unit
that was closed stays closed.

Main results:

- Theorem `Compilation.add_error`: a failed item changes nothing but the messages, and
  appends an error to them.
- Theorem `LinkUnit.addAll_accepted_agrees`: leaving out the requests that fail leads to
  the same unit, messages apart.
- Theorem `failed_requests_leave_no_trace`: the two facts for every history of a unit,
  together with what closing it means.
-/

namespace Shading

open List

variable {c d : Compilation} {s : Surroundings} {item : Compilable} {index : Option Nat}
  {e : CompileError} {u v : LinkUnit} {r : UnitRequest}

/-! ## Compiles that differ in their messages -/

namespace Compilation

/-- Two compiles agree if they differ in their messages at most. -/
def Agrees (c d : Compilation) : Prop :=
  { c with messages := d.messages } = d

theorem Agrees.symm (h : c.Agrees d) : d.Agrees c := by
  unfold Agrees at h ⊢
  rw [← h]

theorem Agrees.trans {e : Compilation} (hcd : c.Agrees d) (hde : d.Agrees e) : c.Agrees e := by
  unfold Agrees at hcd hde ⊢
  rw [← hde, ← hcd]

theorem Agrees.reject {c d : Compilation} (h : c.Agrees d) (e : CompileError) :
    (c.reject e).Agrees (d.reject e) := by
  have hc : (c.reject e).Agrees c := rfl
  have hd : (d.reject e).Agrees d := rfl
  exact hc.trans (h.trans hd.symm)

/-- Every layout has the values of its block.  Cutting the two lists at one length relies
on it. -/
def Balanced (c : Compilation) : Prop :=
  c.blockValues.length = c.layouts.length

theorem Agrees.balanced (h : c.Agrees d) (hc : c.Balanced) : d.Balanced := by
  unfold Agrees at h
  rw [← h]
  exact hc

theorem Agrees.target (h : c.Agrees d) : c.target = d.target := by
  unfold Agrees at h
  rw [← h]

/-! ## Compiling one item -/

/-- What a failed item has left untouched before the roll-back: everything but the
program and the tables, with errors appended to the messages. -/
theorem compile_error {failed : Compilation} {e : ItemError}
    (h : c.compile s item = (.error e, failed)) :
    ∃ new : List Message, (∀ m ∈ new, m.severity = .error) ∧
      failed = { c with
        assembly := failed.assembly
        tables := failed.tables
        messages := c.messages ++ new } := by
  unfold compile at h
  dsimp only at h
  split at h
  · cases h
    exact ⟨[], by simp, by simp⟩
  · split at h
    · rename_i f _ _
      cases h
      refine ⟨f.messages, ?_, rfl⟩
      intro m hm
      unfold LowerFailure.messages at hm
      split at hm
      · rw [mem_singleton] at hm
        rw [hm]
        rfl
      · cases hm
    · cases h

/-- An item compiles if its parameters can be laid out and its functions be lowered. -/
theorem compile_eq_ok_iff :
    c.compile s item = (.ok index, d) ↔ ∃ (layout : Option Layout) (assembly : Assembly),
      c.parameterLayout item = .ok layout ∧ index = c.nextIndex layout ∧
      c.lowerLaidOut s item (item.bindResources c.tables s.store s.library).2.main layout
        = (.ok (), assembly) ∧
      d = c.accept item (item.bindResources c.tables s.store s.library).1 layout assembly := by
  unfold compile
  cases c.parameterLayout item with
  | error e => simp
  | ok layout =>
    dsimp only
    rcases hlower : c.lowerLaidOut s item _ layout with ⟨e | _, assembly⟩ <;>
      simp [hlower, eq_comm]

/-- A successful item keeps the target, and its layout comes with values. -/
theorem compile_ok {done : Compilation} (h : c.compile s item = (.ok index, done)) :
    done.target = c.target ∧ (c.Balanced → done.Balanced) := by
  obtain ⟨layout, assembly, -, -, -, rfl⟩ := compile_eq_ok_iff.mp h
  refine ⟨rfl, fun hc => ?_⟩
  unfold Balanced at hc ⊢
  simp [accept, hc]

/-- Messages have no influence on how an item is compiled. -/
theorem compile_setMessages (c : Compilation) (messages : List Message) (s : Surroundings)
    (item : Compilable) :
    (compile { c with messages } s item).1 = (c.compile s item).1 ∧
      (compile { c with messages } s item).2.Agrees (c.compile s item).2 := by
  -- Layout, block and lowering read other fields only, so both sides take the same branch.
  have hlayout : parameterLayout { c with messages } item = c.parameterLayout item := rfl
  have hlower : lowerLaidOut { c with messages } = c.lowerLaidOut := rfl
  unfold compile
  rw [hlayout, hlower]
  cases c.parameterLayout item with
  | error e => exact ⟨rfl, rfl⟩
  | ok layout =>
    dsimp only
    split <;> exact ⟨rfl, rfl⟩

/-! ## Adding one item -/

/-- The message of a refusal is an error. -/
theorem refusal?_severity {m : Message} (h : c.refusal? item = some (e, m)) :
    m.severity = .error := by
  have htaken (names : List String) (h : refusal?.taken? c names = some (e, m)) :
      m.severity = .error := by
    unfold refusal?.taken? at h
    rcases Option.map_eq_some_iff.mp h with ⟨name, -, hname⟩
    cases hname
    rfl
  unfold refusal? at h
  split at h
  · cases h
    rfl
  · split at h
    · split at h
      · cases h
        rfl
      · exact htaken _ h
    · exact htaken _ h

/-- Cutting off what was appended gives back the lists of a compile whose program and
tables were kept. -/
theorem rollBack_agrees (c : Compilation) (hc : c.Balanced) (assembly : Assembly)
    (tables : ResourceTables) (messages : List Message) :
    (rollBack { c with assembly, tables, messages } c.checkpoint).Agrees c := by
  unfold Balanced at hc
  have hvalues : c.blockValues.take c.layouts.length = c.blockValues :=
    take_of_length_le (Nat.le_of_eq hc)
  simp [Agrees, rollBack, checkpoint, hvalues]

/-- A failed item changes nothing but the messages: the old ones stay, and an error is
among the new ones. -/
theorem add_error (hc : c.Balanced) (h : c.add s item = (.error e, d)) :
    d.Agrees c ∧ ∃ new : List Message, d.messages = c.messages ++ new ∧
      ∃ m ∈ new, m.severity = .error := by
  unfold add at h
  split at h
  · rename_i refused m hrefused
    cases h
    exact ⟨rfl, [m], rfl, m, by simp, refusal?_severity hrefused⟩
  · split at h
    · cases h
    · rename_i cause failed hfailed
      rcases compile_error hfailed with ⟨new, hnew, hfields⟩
      have hrestored : (failed.rollBack c.checkpoint).Agrees c := by
        rw [hfields]
        exact rollBack_agrees c hc _ _ _
      have hmessages : (failed.rollBack c.checkpoint).messages = c.messages ++ new := by
        rw [hfields]
        rfl
      cases h
      split
      · rename_i hlength
        have hnil : new = [] := by
          rw [hmessages] at hlength
          simpa using hlength
        let text := "compiling " ++ item.label ++ " failed: internal backend error"
        refine ⟨hrestored, [.internal text], ?_, .internal text, mem_singleton_self _, rfl⟩
        simp [note, hmessages, hnil, text]
      · rename_i hlength
        refine ⟨hrestored, new, hmessages, ?_⟩
        have hne : new ≠ [] := by
          intro hnil
          apply hlength
          rw [hmessages, hnil, append_nil]
        rcases exists_mem_of_ne_nil new hne with ⟨m, hm⟩
        exact ⟨m, hm, hnew m hm⟩

/-- The answer to an item, which does not depend on the roll-back. -/
theorem add_fst (c : Compilation) (s : Surroundings) (item : Compilable) :
    (c.add s item).1 =
      match c.refusal? item, (c.compile s item).1 with
      | some (e, _), _ => .error e
      | none, .ok index => .ok index
      | none, .error _ => .error (.backendFailure item.name) := by
  unfold add
  cases c.refusal? item with
  | some refusal => rfl
  | none => rcases c.compile s item with ⟨_ | _, _⟩ <;> rfl

/-- An item succeeds if it is not refused and compiles. -/
theorem add_eq_ok_iff :
    c.add s item = (.ok index, d) ↔
      c.refusal? item = none ∧ c.compile s item = (.ok index, d) := by
  unfold add
  cases c.refusal? item with
  | some refusal => simp
  | none => rcases c.compile s item with ⟨_ | _, _⟩ <;> simp

/-- A successful item keeps the target and the balance. -/
theorem add_ok (h : c.add s item = (.ok index, d)) :
    d.target = c.target ∧ (c.Balanced → d.Balanced) :=
  compile_ok (add_eq_ok_iff.mp h).2

/-- Compiles that agree give the same answer to an item, and agree afterwards. -/
theorem Agrees.add {c d : Compilation} (h : c.Agrees d) (hc : c.Balanced) (s : Surroundings)
    (item : Compilable) :
    (c.add s item).1 = (d.add s item).1 ∧ (c.add s item).2.Agrees (d.add s item).2 := by
  have hd : d.Balanced := h.balanced hc
  have hrefusal : d.refusal? item = c.refusal? item := by
    unfold Agrees at h
    rw [← h]
    rfl
  have hcompile := compile_setMessages c d.messages s item
  rw [show { c with messages := d.messages } = d from h] at hcompile
  have hresult : (c.add s item).1 = (d.add s item).1 := by
    rw [add_fst, add_fst, hrefusal, hcompile.1]
  refine ⟨hresult, ?_⟩
  rcases hcAdd : c.add s item with ⟨e | index, c'⟩ <;>
    rcases hdAdd : d.add s item with ⟨e' | index', d'⟩ <;>
      rw [hcAdd, hdAdd] at hresult
  · exact (add_error hc hcAdd).1.trans (h.trans (add_error hd hdAdd).1.symm)
  · cases hresult
  · cases hresult
  · rw [(add_eq_ok_iff.mp hcAdd).2, (add_eq_ok_iff.mp hdAdd).2] at hcompile
    exact hcompile.2.symm

end Compilation

/-! ## Histories of a unit -/

/-- What can be done with a unit: add something, or try to close it. -/
inductive UnitStep
  | add (r : UnitRequest)
  | close (b : Backend)

namespace LinkUnit

variable {target : TargetKind}

/-- The unit after one step. -/
def step [ShaderCheck] (s : Surroundings) (u : LinkUnit) : UnitStep → LinkUnit
  | .add r => (u.request s r).2
  | .close b => (b.closeUnit u).2

/-- The unit after several steps. -/
def after [ShaderCheck] (s : Surroundings) (u : LinkUnit) (steps : List UnitStep) : LinkUnit :=
  steps.foldl (step s) u

/-- The unit after several requests, failed ones among them. -/
def addAll (s : Surroundings) (u : LinkUnit) (requests : List UnitRequest) : LinkUnit :=
  requests.foldl (fun u r => (u.request s r).2) u

/-- The requests that succeed, each in the unit that the ones before it lead to. -/
def accepted (s : Surroundings) : LinkUnit → List UnitRequest → List UnitRequest
  | _, [] => []
  | u, r :: rest =>
    match u.request s r with
    | (.ok _, v) => r :: v.accepted s rest
    | (.error _, v) => v.accepted s rest

/-- What every history keeps: an open unit is balanced and has the target with which it
was created. -/
structure Sound (target : TargetKind) (u : LinkUnit) : Prop where
  balanced : ∀ c, u.compilation = some c → c.Balanced
  target : ∀ c, u.compilation = some c → c.target = target

theorem open_sound (hopen : u.compilation = some c) (hc : c.Balanced)
    (htarget : c.target = target) : u.Sound target := by
  constructor <;> intro d hd <;> rw [hopen, Option.some.injEq] at hd <;> subst hd
  · exact hc
  · exact htarget

theorem closed_sound (target : TargetKind) : Sound target ⟨none⟩ := by
  constructor <;> intro c hc <;> cases hc

theorem create_sound (b : Backend) : (create b).Sound b.target :=
  open_sound rfl rfl rfl

/-- A closed unit refuses requests. -/
theorem request_closed (h : u.compilation = none) (s : Surroundings) (r : UnitRequest) :
    u.request s r = (.error (.invalidParameters .unitClosed), u) := by
  unfold request LinkUnit.add
  rw [h]

/-- A closed unit cannot be closed again. -/
theorem closeUnit_closed [ShaderCheck] (h : u.compilation = none) (b : Backend) :
    b.closeUnit u = (.error (.ofError (.invalidParameters .unitClosed)), u) := by
  unfold Backend.closeUnit
  rw [h]

/-- A closed unit stays as it is. -/
theorem step_closed [ShaderCheck] (h : u.compilation = none) (s : Surroundings)
    (action : UnitStep) : u.step s action = u := by
  cases action with
  | add r => exact congrArg Prod.snd (request_closed h s r)
  | close b => exact congrArg Prod.snd (closeUnit_closed h b)

/-- What a failed request leaves of an open unit. -/
theorem request_error (hopen : u.compilation = some c) (hc : c.Balanced)
    (h : u.request s r = (.error e, v)) :
    ∃ d, v.compilation = some d ∧ d.Agrees c ∧
      ∃ new : List Message, d.messages = c.messages ++ new ∧
        ∃ m ∈ new, m.severity = .error := by
  unfold request add at h
  rw [hopen] at h
  dsimp only at h
  split at h
  · rename_i e' _
    cases h
    exact ⟨_, rfl, rfl, [_], rfl, _, mem_singleton_self _, rfl⟩
  · rename_i item _
    rcases hAdd : c.add s item with ⟨e' | index, d⟩
    · rw [hAdd] at h
      cases h
      exact ⟨d, rfl, Compilation.add_error hc hAdd⟩
    · rw [hAdd] at h
      cases h

/-- What a successful request leaves of an open unit. -/
theorem request_ok (hopen : u.compilation = some c) (h : u.request s r = (.ok index, v)) :
    ∃ d item, v.compilation = some d ∧ r.build s.library c.options = .ok item ∧
      c.add s item = (.ok index, d) := by
  unfold request add at h
  rw [hopen] at h
  dsimp only at h
  split at h
  · cases h
  · rename_i item hitem
    rcases hAdd : c.add s item with ⟨e' | index', d⟩
    · rw [hAdd] at h
      cases h
    · rw [hAdd] at h
      cases h
      exact ⟨d, item, rfl, hitem, hAdd⟩

/-- One step keeps what every history keeps. -/
theorem Sound.step [ShaderCheck] {u : LinkUnit} (h : u.Sound target)
    (s : Surroundings) (action : UnitStep) : (u.step s action).Sound target := by
  cases hopen : u.compilation with
  | none =>
    rw [step_closed hopen]
    exact h
  | some c =>
    have hc := h.balanced c hopen
    cases action with
    | close b =>
      unfold LinkUnit.step Backend.closeUnit
      rw [hopen]
      dsimp only
      split
      · exact h
      · exact closed_sound target
    | add r =>
      change Sound target (u.request s r).2
      rcases hr : u.request s r with ⟨e | index, v⟩
      · rcases request_error hopen hc hr with ⟨d, hd, hagrees, -⟩
        exact open_sound hd (hagrees.symm.balanced hc)
          (hagrees.target.trans (h.target c hopen))
      · rcases request_ok hopen hr with ⟨d, item, hd, -, hadd⟩
        have hdone := Compilation.add_ok hadd
        exact open_sound hd (hdone.2 hc) (hdone.1.trans (h.target c hopen))

/-- Every unit that a history leads to is sound. -/
theorem Sound.after [ShaderCheck] (h : u.Sound target) (s : Surroundings)
    (steps : List UnitStep) : (u.after s steps).Sound target := by
  induction steps generalizing u with
  | nil => exact h
  | cons action rest ih => exact ih (h.step s action)

/-! ## Leaving out failed requests -/

/-- Two units agree if both are closed, or both are open with compiles that agree. -/
def Agrees (u v : LinkUnit) : Prop :=
  match u.compilation, v.compilation with
  | none, none => True
  | some c, some d => c.Agrees d
  | _, _ => False

/-- Open units that agree give the same answer to a request, and agree afterwards. -/
theorem Agrees.request {u v : LinkUnit} (h : u.Agrees v)
    (hu : ∀ c, u.compilation = some c → c.Balanced) (s : Surroundings) (r : UnitRequest) :
    (u.request s r).1 = (v.request s r).1 ∧ (u.request s r).2.Agrees (v.request s r).2 := by
  unfold Agrees at h
  split at h
  · rename_i hu' hv'
    rw [request_closed hu', request_closed hv']
    exact ⟨rfl, by simp [Agrees, hu', hv']⟩
  · rename_i c d hu' hv'
    have hoptions : d.options = c.options := by
      unfold Compilation.Agrees at h
      rw [← h]
    unfold LinkUnit.request LinkUnit.add
    rw [hu', hv']
    dsimp only
    rw [hoptions]
    split
    · exact ⟨rfl, h.reject _⟩
    · exact h.add (hu c hu') s _
  · cases h

/-- A failed request leaves a unit that agrees with the one before. -/
theorem request_error_agrees (hu : ∀ c, u.compilation = some c → c.Balanced)
    (h : u.request s r = (.error e, v)) : v.Agrees u := by
  cases hopen : u.compilation with
  | none =>
    rw [request_closed hopen] at h
    cases h
    simp [Agrees, hopen]
  | some c =>
    rcases request_error hopen (hu c hopen) h with ⟨d, hd, hagrees, -⟩
    simpa [Agrees, hopen, hd] using hagrees

theorem Agrees.symm {u v : LinkUnit} (h : u.Agrees v) : v.Agrees u := by
  unfold Agrees at h ⊢
  split at h
  · simp_all
  · simp_all [Compilation.Agrees.symm]
  · cases h

theorem Agrees.trans {u v w : LinkUnit} (huv : u.Agrees v) (hvw : v.Agrees w) : u.Agrees w := by
  unfold Agrees at huv hvw ⊢
  cases hu : u.compilation <;> cases hv : v.compilation <;> cases hw : w.compilation <;>
    simp_all
  exact huv.trans hvw

/-- Leaving out the requests that fail leads to the same unit, messages apart. -/
theorem addAll_accepted_agrees [ShaderCheck] (h : v.Agrees u) (hu : u.Sound target)
    (hv : v.Sound target) (s : Surroundings) (requests : List UnitRequest) :
    (v.addAll s (u.accepted s requests)).Agrees (u.addAll s requests) := by
  induction requests generalizing u v with
  | nil => exact h
  | cons r rest ih =>
    have hstep := hu.step s (.add r)
    rcases hr : u.request s r with ⟨e | index, u'⟩
    · -- The left unit takes no step: it agrees with the unit after the failure.
      have hback : u'.Agrees u := request_error_agrees hu.balanced hr
      have hrest := ih (h.trans hback.symm) (by simpa [LinkUnit.step, hr] using hstep) hv
      simpa [accepted, addAll, hr] using hrest
    · have hsame := h.request hv.balanced s r
      rw [hr] at hsame
      have hrest := ih hsame.2 (by simpa [LinkUnit.step, hr] using hstep) (hv.step s (.add r))
      simpa [accepted, addAll, hr] using hrest

end LinkUnit

/-! ## Generating code -/

/-- Two outcomes of closing a unit agree if they are artifacts that differ in their
messages at most, or failures with the same cause. -/
def OutcomesAgree : Except CompileFailure Artifact → Except CompileFailure Artifact → Prop
  | .ok a, .ok b => { a with messages := b.messages } = b
  | .error e, .error f => e.error = f.error
  | _, _ => False

/-- Compiles that agree generate the same code. -/
theorem Compilation.Agrees.finish [ShaderCheck] {c d : Compilation} (h : c.Agrees d) :
    OutcomesAgree c.finish d.finish := by
  unfold Compilation.Agrees at h
  rw [← h]
  generalize d.messages = messages
  unfold Compilation.finish
  dsimp only
  split
  · rfl
  · cases c.assembly.finish.emitChecked c.target c.options with
    | error e => rfl
    | ok code => rfl

/-- Units that agree generate the same code. -/
theorem LinkUnit.Agrees.closeUnit [ShaderCheck] {u v : LinkUnit} (h : u.Agrees v) (b : Backend) :
    OutcomesAgree (b.closeUnit u).1 (b.closeUnit v).1 := by
  unfold LinkUnit.Agrees at h
  split at h
  · rename_i hu hv
    rw [LinkUnit.closeUnit_closed hu, LinkUnit.closeUnit_closed hv]
    rfl
  · rename_i c d hu hv
    unfold Backend.closeUnit
    rw [hu, hv]
    dsimp only
    rw [h.target]
    split
    · rfl
    · exact h.finish
  · cases h

/-! ## The whole life of a unit -/

/-- Closing a unit through a backend of its own target leaves it closed for good. -/
theorem LinkUnit.Sound.closed_after [ShaderCheck] {b : Backend} (h : u.Sound b.target)
    (s : Surroundings)
    (later : List UnitStep) : (LinkUnit.after s (b.closeUnit u).2 later).compilation = none := by
  have hclosed : (b.closeUnit u).2.compilation = none := by
    cases hopen : u.compilation with
    | none =>
      rw [LinkUnit.closeUnit_closed hopen]
      exact hopen
    | some c =>
      unfold Backend.closeUnit
      rw [hopen]
      simp [h.target c hopen]
  induction later with
  | nil => exact hclosed
  | cons action rest ih =>
    rw [LinkUnit.after, foldl_cons, LinkUnit.step_closed hclosed]
    exact ih

/-- For every history of a unit: a request that fails afterwards changes nothing but the
messages, which it extends by an error; the code of the unit is that of its successful
requests; once the unit was closed for its own target it refuses everything; and a
backend for another target cannot close it. -/
theorem failed_requests_leave_no_trace [ShaderCheck] (s : Surroundings) (b : Backend)
    (history : List UnitStep) : let u := (LinkUnit.create b).after s history
    (∀ (c : Compilation) (r : UnitRequest) (e : CompileError) (v : LinkUnit),
      u.compilation = some c → u.request s r = (.error e, v) →
        ∃ d, v.compilation = some d ∧ { d with messages := c.messages } = c ∧
          ∃ new, d.messages = c.messages ++ new ∧ ∃ m ∈ new, m.severity = .error) ∧
    (∀ (requests : List UnitRequest) (closing : Backend),
      OutcomesAgree (closing.closeUnit (u.addAll s requests)).1
        (closing.closeUnit (u.addAll s (u.accepted s requests))).1) ∧
    (∀ (closing : Backend) (later : List UnitStep) (r : UnitRequest) (other : Backend),
      closing.target = b.target →
        let v := LinkUnit.after s (closing.closeUnit u).2 later
        v.request s r = (.error (.invalidParameters .unitClosed), v) ∧
          other.closeUnit v = (.error (.ofError (.invalidParameters .unitClosed)), v) ∧
          CompileError.code (.invalidParameters .unitClosed) = -1) ∧
    (∀ closing : Backend, u.isClosed = false → closing.target ≠ b.target →
      closing.closeUnit u =
        (.error (.ofError (.invalidParameters (.otherTarget b.target closing.target))), u)) := by
  intro u
  have hu : u.Sound b.target := (LinkUnit.create_sound b).after s history
  refine ⟨?_, ?_, ?_, ?_⟩
  · intro c r e v hopen hr
    exact LinkUnit.request_error hopen (hu.balanced c hopen) hr
  · intro requests closing
    have hrefl : u.Agrees u := by
      unfold LinkUnit.Agrees
      cases u.compilation <;> trivial
    exact (LinkUnit.addAll_accepted_agrees hrefl hu hu s requests).symm.closeUnit closing
  · intro closing later r other htarget v
    have hv : v.compilation = none := (htarget ▸ hu).closed_after s later
    exact ⟨LinkUnit.request_closed hv s r, LinkUnit.closeUnit_closed hv other, rfl⟩
  · intro closing hopen htarget
    cases hc : u.compilation with
    | none => simp [LinkUnit.isClosed, hc] at hopen
    | some c =>
      unfold Backend.closeUnit
      rw [hc]
      dsimp only
      rw [hu.target c hc, if_pos htarget.symm]

/-- A switch whose first root is a texture and whose second one reads a parameter that
nobody sets: it fails after the texture has got its index. -/
def orphanSwitch : Fragment :=
  { Fragment.empty "orphan" .core with
    graph := ⟨#[⟨.constant (.texture (some "wood") .flat), .texture .flat⟩,
      ⟨.parameter 0, .float⟩]⟩
    roots := some (.multiRoot [0, 1]) }

/-- Surroundings that know one texture. -/
def oneTexture : Surroundings :=
  ⟨AssetStore.empty.insert .texture "wood" ⟨true, .texture .flat 4 4 1⟩, .empty⟩

/-- The failure of the switch comes after its texture was entered into the tables, and
still leaves no trace. -/
theorem failed_requests_leave_no_trace_orphanSwitch :
    (ResourceTables.initial.bindFragment oneTexture.store oneTexture.library
        orphanSwitch).1.textures.length = 2 ∧
      ∃ d, ((LinkUnit.create ⟨.native, .default, true⟩).request oneTexture
          (.fragment orphanSwitch)).2.compilation = some d ∧
        { d with messages := [] } = Compilation.start .native .default true ∧
        ∃ m ∈ d.messages, m.severity = .error := by
  have hfails : ((LinkUnit.create ⟨.native, .default, true⟩).request oneTexture
      (.fragment orphanSwitch)).1 = .error (.backendFailure "orphan") := by
    change ((Compilation.start .native .default true).add oneTexture
      (.function orphanSwitch .switchLambda)).1 = _
    rw [Compilation.add_fst]
    cbv
  refine ⟨by cbv, ?_⟩
  have hlife := failed_requests_leave_no_trace oneTexture ⟨.native, .default, true⟩ []
  rcases hlife.1 _ (.fragment orphanSwitch) _ _ rfl (Prod.ext hfails rfl) with
    ⟨d, hd, hagrees, new, hnew, m, hm, hseverity⟩
  exact ⟨d, hd, hagrees, m, by rw [hnew]; exact mem_append_right _ hm, hseverity⟩

end Shading
