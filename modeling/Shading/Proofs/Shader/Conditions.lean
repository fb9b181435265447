import Shading.Shader.Module
import Shading.Proofs.Shader.Names

/-!
# Conditions that shader text keeps

While shader text is written, two things happen to the names: a structure is named, or a
placeholder is made for a runtime function.  A condition on the names that both keep
therefore holds after any text, if it held before.  Only types that can be expressed get a
name, and the text of an instruction mentions no constants but those of its operands.

Main definitions:

- `Phrase.mentions` are the constants in an expression.
- `ShaderM.Yields` says that a condition still holds after a text is written, and what text it is.
- `ShaderNames.Stable` says that naming a structure and making a placeholder keep it.

Main results:

- Theorem `shaderType_yields`: a type that got a name can be expressed.
- Theorem `instrText_yields`: an instruction mentions its operands only.
- Theorem `routineShaders_keeps`: the shaders of any routines keep a stable condition.
-/

namespace Shading

open List

/-! ## Constants in expressions -/

namespace Phrase

/-- The instructions whose constants an expression mentions. -/
def mentions (p : Phrase) : List Nat :=
  p.filterMap fun
    | .constant id => some id
    | .plain _ => none

@[simp] theorem mentions_nil : mentions [] = [] := rfl

@[simp] theorem mentions_constant (id : Nat) (p : Phrase) :
    mentions (.constant id :: p) = id :: mentions p := rfl

@[simp] theorem mentions_plain (s : String) (p : Phrase) :
    mentions (.plain s :: p) = mentions p := rfl

@[simp] theorem mentions_append (p q : Phrase) : mentions (p ++ q) = p.mentions ++ q.mentions :=
  filterMap_append

@[simp] theorem mentions_call (name : String) (args : List Phrase) :
    (call name args).mentions = args.flatMap mentions := by
  have hargs : mentions ([.plain ", "].intercalate args) = args.flatMap mentions := by
    induction args with
    | nil => rfl
    | cons p args ih =>
      cases args with
      | nil => simp [List.intercalate]
      | cons q args => simp_all [List.intercalate]
  simp [call, hargs]

end Phrase

/-! ## Conditions on names -/

/-- A condition on the names holds after the text is written, if it did before; and then
what was written is as it should be. -/
def ShaderM.Yields (P : ShaderNames → Prop) {α : Type} (m : ShaderM α) (Q : α → Prop) : Prop :=
  ∀ ⦃names : ShaderNames⦄ ⦃a : α⦄ ⦃later : ShaderNames⦄, m.run names = .ok (a, later) →
    P names → P later ∧ Q a

/-- A condition on the names holds after the text is written, if it did before. -/
abbrev ShaderM.Keeps (P : ShaderNames → Prop) {α : Type} (m : ShaderM α) : Prop :=
  Yields P m fun _ => True

/-- The structures that have a name can be expressed. -/
def ShaderNames.Expressible (names : ShaderNames) : Prop :=
  ∀ s ∈ names.structs, s.type.expressible = true

/-- A condition on the names that both changes to them keep.  The structures that have a name
can be expressed under it. -/
structure ShaderNames.Stable (P : ShaderNames → Prop) : Prop where
  expressible : ∀ {names : ShaderNames}, P names → names.Expressible
  struct : ∀ (type : ValueType) (name : String) (members : List String),
    type.expressible = true → ShaderM.Keeps P (nameStruct type name members)
  stub : ∀ {names : ShaderNames} (stub : RuntimeStub), P names →
    P { names with stubs := names.stubs ++ [stub] }

theorem ShaderNames.Expressible.define {names : ShaderNames} (h : names.Expressible)
    {s : ShaderStruct} (hs : s.type.expressible = true) :
    Expressible { names with structs := names.structs ++ [s] } :=
  forall_mem_append.mpr ⟨h, forall_mem_singleton.mpr hs⟩

/-! ## Steps -/

namespace ShaderM

variable {P : ShaderNames → Prop} {α β : Type} {Q : α → Prop}

theorem yields_pure {a : α} (ha : Q a) : Yields P (pure a : ShaderM α) Q := by
  intro names a later h hP
  cases h
  exact ⟨hP, ha⟩

theorem keeps_pure (a : α) : Keeps P (pure a : ShaderM α) :=
  yields_pure trivial

theorem yields_throw (e : ShaderError) : Yields P (throw e : ShaderM α) Q := by
  intro names a later h
  cases h

theorem yields_liftM (x : Except ShaderError α) :
    Yields P (liftM x : ShaderM α) fun a => x = .ok a := by
  intro names a later h hP
  cases x with
  | error e => cases h
  | ok a =>
    cases h
    exact ⟨hP, rfl⟩

theorem yields_get : Yields P (get : ShaderM ShaderNames) P := by
  intro names a later h hP
  cases h
  exact ⟨hP, hP⟩

theorem Yields.bind {m : ShaderM α} {f : α → ShaderM β} {R : β → Prop} (hm : Yields P m Q)
    (hf : ∀ a, Q a → Yields P (f a) R) : Yields P (m >>= f) R := by
  intro names b later h hP
  rcases run_bind_eq_ok h with ⟨a, mid, hfirst, hsecond⟩
  obtain ⟨hmid, ha⟩ := hm hfirst hP
  exact hf a ha hsecond hmid

theorem Yields.keeps {m : ShaderM α} (hm : Yields P m Q) : Keeps P m :=
  fun _ _ _ h hP => ⟨(hm h hP).1, trivial⟩

theorem yields_mapM {f : α → ShaderM β} {R : α → β → Prop} {xs : List α}
    (h : ∀ a ∈ xs, Yields P (f a) (R a)) : Yields P (xs.mapM f) (Forall₂ R xs) := by
  induction xs with
  | nil => exact yields_pure .nil
  | cons x xs ih =>
    rw [mapM_cons]
    obtain ⟨hfirst, hrest⟩ := forall_mem_cons.mp h
    exact hfirst.bind fun _ hx => (ih hrest).bind fun _ hxs => yields_pure (.cons hx hxs)

end ShaderM

open ShaderM

variable {P : ShaderNames → Prop}

/-! ## Types and reads -/

mutual

/-- A type that got a name can be expressed. -/
theorem shaderType_yields (hP : ShaderNames.Stable P) (t : ValueType) :
    Yields P (shaderType t) fun _ => t.expressible = true := by
  cases t with
  | vector element size =>
    rw [shaderType]
    unfold vectorName
    split
    · cases element with
      | double => exact yields_throw _
      | _ => exact yields_pure ‹_›
    · exact yields_throw _
  | matrix columns rows =>
    rw [shaderType]
    split
    · exact yields_pure ‹_›
    · exact yields_throw _
  | array element size =>
    rw [shaderType]
    exact (shaderType_yields hP element).bind fun _ helement => yields_pure helement
  | struct name fields =>
    rw [shaderType]
    refine yields_get.bind fun names hnames => ?_
    split
    · rename_i s hs
      have hfound := hP.expressible hnames s (mem_of_find?_eq_some hs)
      have htype : s.type = .struct name fields := by simpa using find?_some hs
      exact yields_pure (htype ▸ hfound)
    · refine (shaderFields_yields hP fields 0).bind fun members hfields => ?_
      intro names fresh later h hnames
      exact ⟨(hP.struct (.struct name fields) name members hfields h hnames).1, hfields⟩
  | double | bsdf | edf | vdf => exact yields_throw _
  | _ => exact yields_pure rfl

theorem shaderFields_yields (hP : ShaderNames.Stable P) (fields : List (String × ValueType))
    (index : Nat) : Yields P (shaderFields index fields) fun _ =>
      ValueType.fieldsExpressible fields = true := by
  cases fields with
  | nil => exact yields_pure rfl
  | cons f rest =>
    rw [shaderFields]
    exact (shaderType_yields hP f.2).bind fun _ hfirst =>
      (shaderFields_yields hP rest (index + 1)).bind fun _ hrest =>
        yields_pure (Bool.and_eq_true_iff.mpr ⟨hfirst, hrest⟩)

end

mutual

theorem loadText_keeps (hP : ShaderNames.Stable P) (buffer : String) (t : ValueType)
    (offset : Nat) : Keeps P (loadText buffer t offset) := by
  cases t with
  | matrix columns rows =>
    rw [loadText]
    exact (yields_liftM _).bind fun _ _ => (yields_mapM fun _ _ => yields_liftM _).bind fun _ _ =>
      (shaderType_yields hP _).bind fun _ _ => keeps_pure _
  | array element size =>
    rw [loadText]
    refine (yields_liftM _).bind fun word _ => ?_
    split
    · exact yields_throw _
    · exact (yields_mapM fun _ _ => loadText_keeps hP buffer element _).bind fun _ _ =>
        (shaderType_yields hP _).bind fun _ _ => keeps_pure _
  | struct name fields =>
    rw [loadText]
    refine (yields_liftM _).bind fun word _ => ?_
    split
    · exact yields_throw _
    · exact (loadFields_keeps hP buffer fields _).bind fun _ _ =>
        (shaderType_yields hP _).bind fun _ _ => keeps_pure _
  | bsdf | edf | vdf =>
    rw [loadText]
    exact (yields_liftM _).bind fun _ _ => yields_throw _
  | _ =>
    rw [loadText]
    exact (yields_liftM _).keeps

theorem loadFields_keeps (hP : ShaderNames.Stable P) (buffer : String)
    (fields : List (String × ValueType)) (offsets : List Nat) :
    Keeps P (loadFields buffer fields offsets) := by
  cases fields with
  | nil =>
    rw [loadFields]
    · exact keeps_pure _
    · simp
  | cons f rest =>
    cases offsets with
    | nil => exact keeps_pure _
    | cons offset offsets =>
      rw [loadFields]
      exact (loadText_keeps hP buffer f.2 offset).bind fun _ _ =>
        (loadFields_keeps hP buffer rest offsets).bind fun _ _ => keeps_pure _

end

/-! ## Instructions -/

theorem extractText_yields (r : Routine) (value index : Nat) :
    Yields P (extractText r value index) fun e => e.mentions ⊆ [value] := by
  unfold extractText
  split
  · split
    · exact yields_pure (by simp)
    · exact yields_throw _
  · exact yields_pure (by simp)

theorem mentions_unaryText (op : UnaryOp) (a : Nat) : (unaryText op a).mentions ⊆ [a] := by
  unfold unaryText
  split <;> simp

section Stable

variable (hP : ShaderNames.Stable P) (r : Routine)

include hP

theorem operandAs_yields (id : Nat) (type : ValueType) :
    Yields P (operandAs r id type) fun e => e.mentions = [id] := by
  unfold operandAs
  split
  · exact (shaderType_yields hP type).bind fun _ _ => yields_pure (by simp)
  · exact yields_pure (by simp)

theorem constructText_yields (type : ValueType) (args : List Nat) :
    Yields P (constructText type args) fun e => e.mentions ⊆ args := by
  refine (shaderType_yields hP type).bind fun t _ => ?_
  split
  · split <;> exact yields_pure (by simp +contextual [subset_def])
  · exact yields_pure (by simp [flatMap_map])

theorem binaryText_yields (type : ValueType) (op : BinaryOp) (a b : Nat) :
    Yields P (binaryText r type op a b) fun e => e.mentions ⊆ [a, b] := by
  cases op with
  | min | max | pow =>
    exact (operandAs_yields hP r a type).bind fun x hx =>
      (operandAs_yields hP r b type).bind fun y hy => yields_pure (by simp [hx, hy])
  | _ => exact yields_pure (by simp [betweenText])

theorem ternaryText_yields (type : ValueType) (op : TernaryOp) (a b c : Nat) :
    Yields P (ternaryText r type op a b c) fun e => e.mentions ⊆ [a, b, c] := by
  cases op <;> exact (operandAs_yields hP r _ type).bind fun x hx =>
    (operandAs_yields hP r _ type).bind fun y hy => yields_pure (by simp [hx, hy])

theorem stubParameters_keeps (index : Nat) (args : List Nat) :
    Keeps P (stubParameters r index args) := by
  induction args generalizing index with
  | nil => exact keeps_pure _
  | cons a args ih =>
    exact (shaderType_yields hP _).bind fun _ _ => (ih (index + 1)).bind fun _ _ => keeps_pure _

theorem noteRuntime_keeps (name : String) (args : List Nat) (type : ValueType) :
    Keeps P (noteRuntime r name args type) := by
  unfold noteRuntime
  refine yields_get.bind fun names _ => ?_
  split
  · exact keeps_pure _
  · refine (stubParameters_keeps hP r 0 args).bind fun parameters _ => ?_
    refine (shaderType_yields hP type).bind fun t _ => ?_
    intro names _ later h hnames
    cases h
    exact ⟨hP.stub _ hnames, trivial⟩

/-- An instruction mentions its operands only. -/
theorem instrText_yields (i : Instr) :
    Yields P (instrText r i) fun e => e.mentions ⊆ i.op.operands := by
  obtain ⟨type, op⟩ := i
  cases op with
  | double => exact yields_throw _
  | roLoad | argLoad =>
    exact (loadText_keeps hP _ _ _).bind fun _ _ => yields_pure (by simp)
  | construct args => exact constructText_yields hP _ _
  | extract value index => exact extractText_yields r value index
  | unary op a => exact yields_pure (mentions_unaryText op a)
  | binary op a b => exact binaryText_yields hP r _ _ _ _
  | ternary op a b c => exact ternaryText_yields hP r _ _ _ _ _
  | runtimeCall name args =>
    exact (noteRuntime_keeps hP r _ _ _).bind fun _ _ =>
      yields_pure (by simp [flatMap_map, Op.operands])
  | _ => exact yields_pure (by simp)

end Stable

/-! ## Routines -/

/-- A line binds the constant of an instruction, whose type can be expressed, and mentions its
operands only. -/
def Statement.Binds (i : Instr × Nat) (s : Statement) : Prop :=
  i.1.type.expressible = true ∧
    ∃ type value, s = .bind i.2 type value ∧ value.mentions ⊆ i.1.op.operands

namespace Routine

/-- A routine whose shader was written has a name of the shading language. -/
theorem isIdentifier_of_shader {r : Routine} {names later : ShaderNames}
    {written : String × String} (h : r.shader.run names = .ok (written, later)) :
    isIdentifier r.name = true := by
  by_contra hname
  rw [Bool.not_eq_true] at hname
  unfold Routine.shader at h
  simp only [hname, Bool.not_false, if_true] at h
  split at h <;> cases h

variable (hP : ShaderNames.Stable P) (r : Routine)

include hP

theorem binding_yields (i : Instr × Nat) : Yields P (r.binding i) (Statement.Binds i) :=
  (shaderType_yields hP _).bind fun _ htype => (instrText_yields hP r i.1).bind fun _ hvalue =>
    yields_pure ⟨htype, _, _, rfl, hvalue⟩

theorem bindings_yields (body : List (Instr × Nat)) :
    Yields P (body.mapM r.binding) (Forall₂ Statement.Binds body) :=
  yields_mapM fun i _ => binding_yields hP r i

theorem caseBlock_keeps (result : Nat) : Keeps P (r.caseBlock result) :=
  (yields_liftM _).bind fun _ _ => (bindings_yields hP r _).bind fun _ _ => keeps_pure _

theorem shader_keeps : Keeps P r.shader := by
  by_cases hname : isIdentifier r.name = true
  · unfold Routine.shader
    simp only [hname, Bool.not_true, Bool.false_eq_true, if_false]
    split
    · exact (yields_mapM fun _ _ => caseBlock_keeps hP r _).bind fun _ _ => keeps_pure _
    · exact (bindings_yields hP r _).bind fun _ _ => keeps_pure _
    · split
      · exact yields_throw _
      · exact (shaderType_yields hP _).bind fun _ _ => (bindings_yields hP r _).bind fun _ _ =>
          keeps_pure _
  · intro names written later h
    exact absurd (isIdentifier_of_shader h) hname

end Routine

/-- The shaders of any routines keep a stable condition. -/
theorem routineShaders_keeps (hP : ShaderNames.Stable P) (routines : List Routine) :
    Keeps P (routineShaders routines) := by
  induction routines with
  | nil => exact keeps_pure _
  | cons r rest ih => exact (r.shader_keeps hP).bind fun _ _ => ih.bind fun _ _ => keeps_pure _

end Shading
