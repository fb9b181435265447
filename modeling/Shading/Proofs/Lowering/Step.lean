import Mathlib.Logic.Relation
import Shading.Proofs.Lowering.Pool
import Shading.Proofs.Lowering.StateReads

/-!
# The steps of lowering

Everything that lowering does is a sequence of small steps: it emits an instruction whose
operands are there, it notes a part of the state, or it adds to the data.  What holds of
every step holds of every routine.

Main definitions:

- `LowerState.Step` is one step, with a condition on the instruction that it emits, and
  `LowerState.Steps` a sequence of steps.
- `Advances` says that the run of a computation is a sequence of steps, and how it ends.
- `LowerEnv.Admits` is the condition on instructions: what they refer to is there, and what they
  read of the state was noted.
- `LowerEnv.Computes` says that the run of a computation is a sequence of steps, and ends with an
  instruction of a given value.

Main results:

- Theorems `Advances.bind` and `mapM_advances`: computations one after the other.
- Theorem `emit_computes`: an emitted instruction has the value of its operation.
- Theorem `mapM_computes`: a list of computations gives a list of values.
-/

namespace Shading

open List

variable {t : ValueType} {rules : LayoutRules} {Loads : Nat → Nat → ValueType → Prop}

/-! ## Steps -/

/-- One step of lowering; `P` is the condition on the instructions that are emitted. -/
inductive LowerState.Step (P : LowerState → Instr → Prop) : LowerState → LowerState → Prop
  | emit {s : LowerState} {i : Instr} (hoperands : ∀ a ∈ i.op.operands, a < s.body.size)
      (hi : P s i) : Step P s { s with body := s.body.push i }
  | note {s : LowerState} (flag : StateFlag) :
      Step P s { s with usage := s.usage.insert flag }
  | data {s : LowerState} {pool : DataPool} (hpool : s.pool.Reaches pool) :
      Step P s { s with pool }

/-- Several steps of lowering. -/
abbrev LowerState.Steps (P : LowerState → Instr → Prop) : LowerState → LowerState → Prop :=
  Relation.ReflTransGen (LowerState.Step P)

namespace LowerState

variable {P : LowerState → Instr → Prop} {s s' : LowerState}

theorem Step.grows (h : s.Step P s') : s.Grows s' := by
  cases h with
  | emit hoperands _ => exact ⟨extends_push _ _, fun hs => hs.push hoperands, DataPool.Grows.refl _⟩
  | note flag => exact ⟨Extends.refl _, id, DataPool.Grows.refl _⟩
  | data hpool => exact grows_pool hpool.grows

theorem Step.size_le (h : s.Step P s') : s.body.size ≤ s'.body.size := by
  cases h with
  | emit _ _ =>
    dsimp only
    rw [Array.size_push]
    exact Nat.le_succ _
  | note flag => exact Nat.le_refl _
  | data _ => exact Nat.le_refl _

theorem Step.reaches (h : s.Step P s') : s.pool.Reaches s'.pool := by
  cases h with
  | emit _ _ | note flag => exact .refl
  | data hpool => exact hpool

/-- What was noted stays noted. -/
theorem Step.has (h : s.Step P s') {flag : StateFlag} (hs : s.usage.has flag = true) :
    s'.usage.has flag = true := by
  cases h with
  | emit _ _ | data _ => exact hs
  | note other => exact StateUsage.has_insert hs other

theorem Steps.grows (h : s.Steps P s') : s.Grows s' := by
  induction h with
  | refl => exact Grows.refl s
  | tail _ hstep ih => exact ih.trans hstep.grows

theorem Steps.size_le (h : s.Steps P s') : s.body.size ≤ s'.body.size := by
  induction h with
  | refl => exact Nat.le_refl _
  | tail _ hstep ih => exact Nat.le_trans ih hstep.size_le

theorem Steps.reaches (h : s.Steps P s') : s.pool.Reaches s'.pool := by
  induction h with
  | refl => exact .refl
  | tail _ hstep ih => exact ih.trans hstep.reaches

theorem Steps.has (h : s.Steps P s') {flag : StateFlag} (hs : s.usage.has flag = true) :
    s'.usage.has flag = true := by
  induction h with
  | refl => exact hs
  | tail _ hstep ih => exact hstep.has ih

/-- Instructions that satisfied the condition when they were emitted satisfy it later on,
if the condition survives steps. -/
theorem Steps.forall_instr (h : s.Steps P s')
    (hmono : ∀ {t t' : LowerState} {i : Instr}, t.Step P t' → P t i → P t' i)
    (hs : ∀ i ∈ s.body, P s i) : ∀ i ∈ s'.body, P s' i := by
  induction h with
  | refl => exact hs
  | tail _ hstep ih =>
    have hold := fun i hi => hmono hstep (ih i hi)
    cases hstep with
    | emit hoperands hnew =>
      intro i hi
      rcases Array.mem_push.mp hi with hi | rfl
      · exact hold i hi
      · exact hmono (.emit hoperands hnew) hnew
    | note flag | data hpool => exact hold

end LowerState

/-! ## Runs that are steps -/

/-- The run is a sequence of steps, also if it fails, and a successful one ends as asked. -/
structure Advances {α : Type} (P : LowerState → Instr → Prop) (m : LowerM α) (s : LowerState)
    (Q : α → LowerState → Prop) : Prop where
  steps : s.Steps P (m.run s).2
  ends : Ensures m s Q

/-- A run that ends with an instruction. -/
abbrev Emits (P : LowerState → Instr → Prop) (m : LowerM Nat) (s : LowerState) : Prop :=
  Advances P m s fun id s' => id < s'.body.size

/-- A run that ends with a list of instructions. -/
abbrev EmitsAll (P : LowerState → Instr → Prop) (m : LowerM (List Nat)) (s : LowerState) : Prop :=
  Advances P m s fun ids s' => ∀ id ∈ ids, id < s'.body.size

namespace Advances

variable {α β : Type} {P : LowerState → Instr → Prop} {s : LowerState}

variable {Q : α → LowerState → Prop} {m : LowerM α}

theorem pure {a : α} (h : Q a s) : Advances P (Pure.pure a) s Q :=
  ⟨.refl, .pure h⟩

theorem throw {e : LowerError} : Advances P (MonadExcept.throw e) s Q :=
  ⟨.refl, .throw⟩

theorem lift (r : Except LowerError α) (s : LowerState) :
    Advances P (MonadLift.monadLift r) s fun a s' => r = .ok a ∧ s' = s := by
  refine ⟨?_, Ensures.lift r s⟩
  cases r <;> exact .refl

/-- A successful run comes to a state after steps. -/
theorem ensures (hm : Advances P m s Q) : Ensures m s fun a s' => s.Steps P s' ∧ Q a s' := by
  intro a s' hrun
  have hsteps := hm.steps
  rw [hrun] at hsteps
  exact ⟨hsteps, hm.ends a s' hrun⟩

theorem and_steps (hm : Advances P m s Q) : Advances P m s fun a s' => s.Steps P s' ∧ Q a s' :=
  ⟨hm.steps, hm.ensures⟩

/-- One run after the other. -/
theorem bind {f : α → LowerM β} {R : β → LowerState → Prop} (hm : Advances P m s Q)
    (hf : ∀ a s', s.Steps P s' → Q a s' → Advances P (f a) s' R) : Advances P (m >>= f) s R := by
  have hends := hm.ensures
  refine ⟨?_, Ensures.bind hends fun a s₁ h₁ => (hf a s₁ h₁.1 h₁.2).ends⟩
  change s.Steps P (ExceptT.bindCont f (m.run s).1 (m.run s).2).2
  have hsteps := hm.steps
  unfold Ensures at hends
  generalize m.run s = first at hsteps hends
  obtain ⟨result, s₁⟩ := first
  cases result with
  | error e => exact hsteps
  | ok a => exact hsteps.trans (hf a s₁ hsteps (hends a s₁ rfl).2).steps

theorem mono {Q R : α → LowerState → Prop} (hm : Advances P m s Q)
    (h : ∀ a s', Q a s' → R a s') : Advances P m s R :=
  ⟨hm.steps, hm.ends.mono h⟩

end Advances

section

variable {P : LowerState → Instr → Prop} {s : LowerState}

theorem noteUsage_advances (flag : StateFlag) (s : LowerState) :
    Advances P (noteUsage flag) s fun _ s' => s' = { s with usage := s.usage.insert flag } := by
  refine ⟨.single (.note flag), ?_⟩
  rintro u s' ⟨⟩
  rfl

theorem modifyPool_advances {α : Type} {f : DataPool → α × DataPool}
    {Q : α → LowerState → Prop} (hpool : s.pool.Reaches (f s.pool).2)
    (h : Q (f s.pool).1 { s with pool := (f s.pool).2 }) : Advances P (modifyPool f) s Q :=
  ⟨.single (.data hpool), modifyPool_ensures h⟩

/-- A list of computations, each of which brings something about that lasts. -/
theorem mapM_advances {α β : Type} {R : α → β → LowerState → Prop}
    (hlasts : ∀ {a b s s'}, R a b s → s.Steps P s' → R a b s') {f : α → LowerM β} {l : List α}
    (h : ∀ a ∈ l, ∀ s', s.Steps P s' → Advances P (f a) s' (R a)) :
    Advances P (l.mapM f) s fun bs s' => Forall₂ (fun a b => R a b s') l bs := by
  induction l generalizing s with
  | nil => exact .pure .nil
  | cons a l ih =>
    rw [mapM_cons]
    refine (h a mem_cons_self s .refl).bind fun b s₁ h₁ hb => ?_
    refine (ih fun a' ha s' hs' => h a' (mem_cons_of_mem a ha) s' (h₁.trans hs')).bind
      fun bs s₂ h₂ hbs => .pure (.cons (hlasts hb h₂) hbs)

end

theorem below_of_steps {P : LowerState → Instr → Prop} {s s' : LowerState} {ids : List Nat}
    (h : s.Steps P s') (hids : ∀ id ∈ ids, id < s.body.size) : ∀ id ∈ ids, id < s'.body.size :=
  fun id hid => Nat.lt_of_lt_of_le (hids id hid) h.size_le

/-! ## Admissible instructions -/

/-- An instruction that refers only to what is there: to a piece of data that is long
enough, to a texture space or a texture result that exists, and to arguments that `Loads`
allows. -/
def Admissible (o : Options) (rules : LayoutRules) (Loads : Nat → Nat → ValueType → Prop)
    (pool : DataPool) (i : Instr) : Prop :=
  match i.op with
  | .roLoad offset =>
    ∃ piece, pool.pieces.lookup piece = some offset ∧ i.type.size rules ≤ piece.length
  | .argLoad block offset => Loads block offset i.type
  | .textureCoordinate index => index < o.numTextureSpaces
  | .textureResult index => index < o.numTextureResults
  | _ => True

theorem Admissible.of_reaches {o : Options} {p q : DataPool} {i : Instr} (hpq : p.Reaches q)
    (h : Admissible o rules Loads p i) : Admissible o rules Loads q i := by
  obtain ⟨t, op⟩ := i
  cases op with
  | roLoad offset =>
    obtain ⟨piece, hpiece, hsize⟩ := h
    exact ⟨piece, lookup_of_grows hpq.grows.pieces hpiece, hsize⟩
  | _ => exact h

theorem Admissible.of_loads {o : Options} {Loads' : Nat → Nat → ValueType → Prop} {pool : DataPool}
    {i : Instr} (h : Admissible o rules Loads pool i)
    (hloads : ∀ block offset t, Loads block offset t → Loads' block offset t) :
    Admissible o rules Loads' pool i := by
  obtain ⟨t, op⟩ := i
  cases op with
  | argLoad block offset => exact hloads block offset t h
  | _ => exact h

/-- The condition does not depend on operands, and holds of what refers to nothing. -/
theorem Admissible.robust (o : Options) (rules : LayoutRules)
    (Loads : Nat → Nat → ValueType → Prop) (pool : DataPool) :
    Instr.Robust (Admissible o rules Loads pool) where
  renamed := by
    rintro ⟨t, op⟩ f h
    cases op <;> exact h
  literal := by
    intro t t' op hop
    cases op <;> first | exact trivial | cases hop
  product := trivial

/-- The instructions that may be emitted in a setting: what they refer to is there, and what they
read of the state was noted. -/
structure LowerEnv.Admits (env : LowerEnv) (Loads : Nat → Nat → ValueType → Prop) (s : LowerState)
    (i : Instr) : Prop where
  refers : Admissible env.options env.rules Loads s.pool i
  accounted : i.op.Accounted env.context s.usage

theorem LowerEnv.Admits.of_step {env : LowerEnv} {P : LowerState → Instr → Prop}
    {s s' : LowerState} {i : Instr} (h : env.Admits Loads s i) (hs : s.Step P s') :
    env.Admits Loads s' i :=
  ⟨h.refers.of_reaches hs.reaches, h.accounted.mono fun _ => hs.has⟩

/-- An instruction that reads nothing of the state. -/
theorem LowerEnv.Admits.silent {env : LowerEnv} {s : LowerState} {op : Op}
    (hflag : op.flag? = none) (hi : Admissible env.options env.rules Loads s.pool ⟨t, op⟩) :
    env.Admits Loads s ⟨t, op⟩ :=
  ⟨hi, .of_flag_none hflag⟩

/-! ## Runs that compute values -/

section

variable {V : Type} {I : Interpretation V} {env : LowerEnv} {s : LowerState} {vs : List V}

/-- The run is a sequence of steps, and a successful one ends with an instruction of the given
value. -/
abbrev LowerEnv.Computes (env : LowerEnv) (Loads : Nat → Nat → ValueType → Prop)
    (I : Interpretation V) (m : LowerM Nat) (s : LowerState) (x : Option V) : Prop :=
  Advances (env.Admits Loads) m s fun id s' => id < s'.body.size ∧ valueAt I s'.body id = x

/-- Instructions that are there have values. -/
theorem exists_haveValues (I : Interpretation V) {ids : List Nat}
    (h : ∀ id ∈ ids, id < s.body.size) : ∃ vs, HaveValues I s.body ids vs :=
  ⟨_, map_valueAt h⟩

theorem HaveValues.of_steps {P : LowerState → Instr → Prop} {s' : LowerState} {ids : List Nat}
    (h : HaveValues I s.body ids vs) (hs : s.Steps P s') : HaveValues I s'.body ids vs :=
  h.of_extends hs.grows.body

/-- An emitted instruction has the value of its operation. -/
theorem emit_computes {o : Op} (hops : HaveValues I s.body o.operands vs)
    (hi : env.Admits Loads s ⟨t.storage, o⟩) :
    env.Computes Loads I (emit t o) s (some (I t.storage o.operator vs)) :=
  ⟨.single (.emit hops.lt_size hi), (emit_yields hops).mono fun _ _ h => h.2⟩

/-- An instruction that reads a part of the state, right after that part was noted. -/
theorem emit_noted_computes {o : Op} {flag : StateFlag} (hops : HaveValues I s.body o.operands vs)
    (hflag : o.flag? = some flag) (hoffers : env.context.Offers flag)
    (hi : Admissible env.options env.rules Loads s.pool ⟨t.storage, o⟩) :
    env.Computes Loads I (do noteUsage flag; emit t o) s (some (I t.storage o.operator vs)) := by
  refine (noteUsage_advances flag s).bind ?_
  rintro _ _ - rfl
  refine emit_computes hops ⟨hi, fun other hother => ?_⟩
  cases hflag.symm.trans hother
  exact ⟨StateUsage.has_insert_self _ _, hoffers⟩

theorem emit_float_computes (x : Float32) (s : LowerState) :
    env.Computes Loads I (emit .float (.float x)) s (some (I .float (.float x) [])) :=
  emit_computes .nil (.silent rfl trivial)

/-- A list of computations gives a list of values. -/
theorem mapM_computes {α : Type} {f : α → LowerM Nat} {g : α → V} {l : List α}
    (h : ∀ a ∈ l, ∀ s', s.Steps (env.Admits Loads) s' →
      env.Computes Loads I (f a) s' (some (g a))) :
    Advances (env.Admits Loads) (l.mapM f) s fun ids s' => HaveValues I s'.body ids (l.map g) := by
  induction l generalizing s with
  | nil => exact .pure HaveValues.nil
  | cons a l ih =>
    rw [mapM_cons]
    refine (h a mem_cons_self s .refl).bind fun id s₁ h₁ hid => ?_
    refine (ih fun b hb s' hs' => h b (mem_cons_of_mem a hb) s' (h₁.trans hs')).bind
      fun ids s₂ h₂ hids => .pure ?_
    exact .cons (valueAt_of_extends_some h₂.grows.body hid.2) hids

end

end Shading
