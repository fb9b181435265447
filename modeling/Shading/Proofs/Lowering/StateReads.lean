import Shading.Lowering.Call
import Shading.Proofs.Program.Conditions

/-!
# What instructions read of the shading state

Lowering notes each part of the shading state before it emits the instruction that reads it, and
checks that the part exists in the context of the routine.  Both are done where the instruction is
emitted, with the context of the entry point, however deep calls of fragments nest.  So the flags of
a routine cover what its code reads, before optimisation and after it.

Main definitions:

- `Op.flag?` is the part of the state that an operation reads.
- `ExecutionContext.Offers` says that a part of the state exists in a context.
- `Op.Accounted` says that flags cover what an operation reads, and that the context offers it;
  `Routine.Accounted` says it of all that a routine reads and stores.

Main results:

- `Op.Accounted.robust`: optimisation keeps instructions accounted for.
- `not_environment_of_checkContext` and `environment_of_checkContext`: what the check of a query
  says about the context.
-/

namespace Shading

/-! ## Sets of flags -/

namespace StateUsage

variable {u v w : StateUsage} {flag other : StateFlag}

@[simp] theorem has_none (flag : StateFlag) : none.has flag = false :=
  Nat.zero_testBit _

@[simp] theorem has_union (u v : StateUsage) (flag : StateFlag) :
    (u.union v).has flag = (u.has flag || v.has flag) :=
  Nat.testBit_or _ _ _

theorem has_insert_self (u : StateUsage) (flag : StateFlag) : (u.insert flag).has flag = true := by
  have hbit : (Nat.pow 2 flag.bit).testBit flag.bit = true := Nat.testBit_two_pow_self
  unfold has insert
  rw [Nat.testBit_or, hbit, Bool.or_true]

theorem has_insert (h : u.has flag = true) (other : StateFlag) :
    (u.insert other).has flag = true := by
  unfold has at h
  unfold has insert
  rw [Nat.testBit_or, h, Bool.true_or]

theorem union_assoc (u v w : StateUsage) : (u.union v).union w = u.union (v.union w) :=
  congrArg mk (Nat.or_assoc _ _ _)

theorem union_none (u : StateUsage) : u.union none = u :=
  congrArg mk (Nat.or_zero _)

end StateUsage

/-! ## Reads -/

/-- The part of the state to which a field belongs. -/
def StateField.flag : StateField → StateFlag
  | .normal => .normal
  | .position => .position
  | .direction => .direction
  | .animationTime => .animationTime
  | .objectId => .objectId

/-- The runtime functions that need the transforms of the object. -/
def objectTransforms : List String :=
  ["transform_point_to_object", "transform_normal_to_object"]

/-- The part of the state that an operation reads, if it reads any. -/
def Op.flag? : Op → Option StateFlag
  | .state field => some field.flag
  | .textureCoordinate _ => some .textureCoordinate
  | .textureResult _ => some .textureResults
  | .roLoad _ => some .roData
  | .runtimeCall name _ => if name ∈ objectTransforms then some .transforms else none
  | _ => none

/-- Whether a part of the state exists in a context: the direction only in environment functions,
and there nothing that belongs to an object. -/
def ExecutionContext.Offers (context : ExecutionContext) : StateFlag → Prop
  | .direction => context = .environment
  | .normal | .position | .objectId | .textureCoordinate | .transforms => context ≠ .environment
  | .animationTime | .textureResults | .roData => True

/-- The flags cover what an operation reads, and the context offers it. -/
def Op.Accounted (context : ExecutionContext) (usage : StateUsage) (op : Op) : Prop :=
  ∀ flag, op.flag? = some flag → usage.has flag = true ∧ context.Offers flag

namespace Op.Accounted

variable {context : ExecutionContext} {usage usage' : StateUsage} {op : Op}

theorem of_flag_none (h : op.flag? = none) : op.Accounted context usage := by
  intro flag hflag
  rw [h] at hflag
  cases hflag

theorem mono (h : op.Accounted context usage)
    (husage : ∀ flag, usage.has flag = true → usage'.has flag = true) :
    op.Accounted context usage' :=
  fun flag hflag => ⟨husage flag (h flag hflag).1, (h flag hflag).2⟩

/-- Operands do not matter, and literals and products read nothing. -/
theorem robust (context : ExecutionContext) (usage : StateUsage) :
    Instr.Robust fun i => i.op.Accounted context usage where
  renamed := by
    rintro ⟨t, op⟩ f h
    cases op <;> exact h
  literal := by
    intro t t' op hop
    cases op <;> first | exact of_flag_none rfl | cases hop
  product := of_flag_none rfl

end Op.Accounted

/-- A routine of which flags cover all reads and stores, in a context that offers what is read. -/
structure Routine.Accounted (usage : StateUsage) (r : Routine) : Prop where
  instrs : ∀ i ∈ r.body, i.op.Accounted r.context usage
  stores : r.stores ≠ [] → usage.has .textureResults = true

theorem Routine.Accounted.mono {usage usage' : StateUsage} {r : Routine} (h : r.Accounted usage)
    (husage : ∀ flag, usage.has flag = true → usage'.has flag = true) : r.Accounted usage' :=
  ⟨fun i hi => (h.instrs i hi).mono husage, fun hstores => husage _ (h.stores hstores)⟩

/-! ## Runtime functions -/

/-- The functions that need the transforms are told by their first character. -/
theorem flag?_runtimeCall {name : String} {c : Char} {args : List Nat}
    (h : name.toList.head? = some c) (hc : c ≠ 't') : (Op.runtimeCall name args).flag? = none := by
  refine if_neg fun hmem => hc ?_
  simp only [objectTransforms, List.mem_cons, List.not_mem_nil, or_false] at hmem
  rcases hmem with rfl | rfl <;> exact (Option.some.inj h).symm

/-- The functions of the renderer for textures and other resources. -/
theorem flag?_rendererCall (mode : CallMode) (name : String) (args : List Nat) :
    (Op.runtimeCall (mode.namePrefix ++ name) args).flag? = none := by
  refine flag?_runtimeCall (c := 'r') ?_ (by decide)
  rw [String.toList_append]
  cases mode <;> rfl

theorem ResourceQuery.flag?_answer (q : ResourceQuery) (b : ResourceBinding) :
    (q.answer b).2.flag? = none := by
  unfold ResourceQuery.answer
  split <;> rfl

/-! ## Contexts -/

variable {context : ExecutionContext}

/-- A query of an object that passes the check is not made in an environment function. -/
theorem not_environment_of_checkContext {q : StateQuery} (h : checkContext context q = .ok ())
    (hdirection : q ≠ .direction) (htime : q ≠ .animationTime) : context ≠ .environment := by
  rintro rfl
  cases q with
  | direction => exact hdirection rfl
  | animationTime => exact htime rfl
  | _ => cases h

/-- The direction is read in environment functions only. -/
theorem environment_of_checkContext (h : checkContext context .direction = .ok ()) :
    context = .environment := by
  by_contra hcontext
  have herror : checkContext context .direction = .error .onlyInEnvironment := if_neg hcontext
  rw [herror] at h
  cases h

end Shading
