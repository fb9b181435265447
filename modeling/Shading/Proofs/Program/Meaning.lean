import Mathlib.Data.List.Basic
import Shading.Program.Basic

/-!
# The meaning of routines

What the instructions of a routine compute, under any interpretation of the operators.
An interpretation is pure: it sees the type of an instruction, the operator, and the
values of the operands.  The state in which a routine runs is left to it.

Main definitions:

- `Operator` is an operation without its operands, `Interpretation` what operators
  compute.
- `valueAt` is the value of an instruction; `Routine.resultValues` and
  `Routine.storeValues` are what a routine returns and stores.

Main results:

- Theorem `valueAt_eq`: in an ordered body the value of an instruction is its operator
  applied to the values of its operands.
- Theorem `valueAt_of_extends`: what is appended to a body does not change the values
  that are there.
-/

namespace Shading

open List

variable {body longer : Array Instr} {i : Instr} {id : Nat}

/-! ## Operators and interpretations -/

/-- What an instruction computes, its operands left out. -/
inductive Operator
  | bool (b : Bool)
  | int (n : Int32)
  | float (x : Float32)
  | double (x : Float)
  | roLoad (offset : Nat)
  | argLoad (block offset : Nat)
  | construct
  | extract (index : Nat)
  | unary (op : UnaryOp)
  | binary (op : BinaryOp)
  | ternary (op : TernaryOp)
  | state (field : StateField)
  | textureCoordinate (index : Nat)
  | textureResult (index : Nat)
  | runtimeCall (name : String)
  deriving DecidableEq

/-- The operator of an operation. -/
def Op.operator : Op → Operator
  | .bool b => .bool b
  | .int n => .int n
  | .float x => .float x
  | .double x => .double x
  | .roLoad offset => .roLoad offset
  | .argLoad block offset => .argLoad block offset
  | .construct _ => .construct
  | .extract _ index => .extract index
  | .unary op _ => .unary op
  | .binary op _ _ => .binary op
  | .ternary op _ _ _ => .ternary op
  | .state field => .state field
  | .textureCoordinate index => .textureCoordinate index
  | .textureResult index => .textureResult index
  | .runtimeCall name _ => .runtimeCall name

@[simp]
theorem Op.operator_mapOperands (f : Nat → Nat) (op : Op) :
    (op.mapOperands f).operator = op.operator := by
  cases op <;> rfl

@[simp]
theorem Op.operands_mapOperands (f : Nat → Nat) (op : Op) :
    (op.mapOperands f).operands = op.operands.map f := by
  cases op <;> rfl

/-- What the operators compute: from the type of the instruction, the operator and the
values of the operands. -/
abbrev Interpretation (V : Type) := ValueType → Operator → List V → V

/-! ## Values of instructions -/

section

variable {V : Type} (I : Interpretation V)

/-- The value of an instruction.  Operands that are not earlier instructions have no
value and are left out. -/
def valueAt (body : Array Instr) (id : Nat) : Option V :=
  match body[id]? with
  | none => none
  | some i =>
    some (I i.type i.op.operator
      (i.op.operands.filterMap fun a => if _h : a < id then valueAt body a else none))
termination_by id

/-- The value that an instruction has after a body. -/
def Instr.value (body : Array Instr) (i : Instr) : V :=
  I i.type i.op.operator (i.op.operands.filterMap (valueAt I body))

/-- Every instruction of a body uses earlier ones only. -/
def Ordered (body : Array Instr) : Prop :=
  ∀ (id : Nat) (i : Instr), body[id]? = some i → ∀ a ∈ i.op.operands, a < id

theorem ordered_iff :
    Ordered body ↔ ∀ id : Fin body.size, ∀ a ∈ body[id].op.operands, a < id.val := by
  constructor
  · intro h id
    exact h id _ (Array.getElem?_eq_getElem id.isLt)
  · intro h id i hi
    obtain ⟨hid, rfl⟩ := Array.getElem?_eq_some_iff.mp hi
    exact h ⟨id, hid⟩

instance (body : Array Instr) : Decidable (Ordered body) :=
  decidable_of_iff' _ ordered_iff

theorem ordered_empty : Ordered #[] := by
  intro id i hi
  cases hi

theorem Ordered.push (h : Ordered body) (hi : ∀ a ∈ i.op.operands, a < body.size) :
    Ordered (body.push i) := by
  intro id j hj
  rw [Array.getElem?_push] at hj
  split at hj
  · rename_i hid
    cases hj
    rw [hid]
    exact hi
  · exact h id j hj

/-- A body that starts with another one. -/
def Extends (body longer : Array Instr) : Prop :=
  ∀ (id : Nat) (i : Instr), body[id]? = some i → longer[id]? = some i

theorem Extends.refl (body : Array Instr) : Extends body body :=
  fun _ _ h => h

theorem Extends.trans {a b c : Array Instr} (hab : Extends a b) (hbc : Extends b c) : Extends a c :=
  fun id i h => hbc id i (hab id i h)

theorem extends_push (body : Array Instr) (i : Instr) : Extends body (body.push i) := by
  intro id j h
  have hid : id < body.size := (Array.getElem?_eq_some_iff.mp h).1
  rw [Array.getElem?_push_lt hid, ← Array.getElem?_eq_getElem hid]
  exact h

theorem Extends.size_le (h : Extends body longer) : body.size ≤ longer.size := by
  rcases Nat.eq_zero_or_pos body.size with hzero | hpos
  · omega
  · have hlast : body.size - 1 < body.size := by omega
    have hfound := h _ _ (Array.getElem?_eq_getElem hlast)
    have := (Array.getElem?_eq_some_iff.mp hfound).1
    omega

variable {I}

/-- In an ordered body, an instruction is its operator applied to its operands. -/
theorem valueAt_eq (hbody : Ordered body) (hi : body[id]? = some i) :
    valueAt I body id = some (i.value I body) := by
  rw [valueAt, hi]
  unfold Instr.value
  dsimp only
  congr 2
  apply filterMap_congr
  intro a ha
  simp [hbody id i hi a ha]

/-- Positions outside of a body have no value. -/
theorem valueAt_eq_none (h : body.size ≤ id) : valueAt I body id = none := by
  rw [valueAt, Array.getElem?_eq_none h]

/-- Appended instructions do not change the values that are there. -/
theorem valueAt_of_extends (h : Extends body longer) (hid : id < body.size) :
    valueAt I longer id = valueAt I body id := by
  induction id using Nat.strongRecOn with
  | ind id ih =>
    have hi : body[id]? = some body[id] := Array.getElem?_eq_getElem hid
    rw [valueAt, valueAt, h _ _ hi, hi]
    dsimp only
    congr 2
    apply filterMap_congr
    intro a _
    by_cases ha : a < id
    · simp only [ha, dite_true]
      exact ih a ha (Nat.lt_trans ha hid)
    · simp only [ha, dite_false]

/-- What a body computes depends on the operators that occur in it. -/
theorem valueAt_congr {J : Interpretation V}
    (h : ∀ i ∈ body, ∀ vs, J i.type i.op.operator vs = I i.type i.op.operator vs) (id : Nat) :
    valueAt J body id = valueAt I body id := by
  induction id using Nat.strongRecOn with
  | ind id ih =>
    rw [valueAt, valueAt]
    cases hi : body[id]? with
    | none => rfl
    | some i =>
      dsimp only
      rw [h i (Array.mem_of_getElem? hi)]
      congr 2
      apply filterMap_congr
      intro a _
      by_cases ha : a < id
      · simp only [ha, dite_true]
        exact ih a ha
      · simp only [ha, dite_false]

/-- What an instruction computes depends on the values of its operands only. -/
theorem Instr.value_congr (h : ∀ a ∈ i.op.operands, valueAt I longer a = valueAt I body a) :
    i.value I longer = i.value I body := by
  unfold Instr.value
  rw [filterMap_congr h]

/-- An instruction with renamed operands, where those have the old values. -/
theorem Instr.value_mapOperands {old new : Array Instr} {f : Nat → Nat}
    (h : ∀ a ∈ i.op.operands, valueAt I new (f a) = valueAt I old a) :
    (i.mapOperands f).value I new = i.value I old := by
  unfold Instr.value
  simp only [Instr.mapOperands, Op.operator_mapOperands, Op.operands_mapOperands,
    filterMap_map]
  congr 1
  exact filterMap_congr h

theorem Instr.value_leaf (h : i.op.operands = []) : i.value I body = I i.type i.op.operator [] := by
  rw [Instr.value, h, filterMap_nil]

/-- An appended instruction has the value that it has after the body. -/
theorem valueAt_push (hi : ∀ a ∈ i.op.operands, a < body.size) :
    valueAt I (body.push i) body.size = some (i.value I body) := by
  rw [valueAt, Array.getElem?_push_size]
  unfold Instr.value
  dsimp only
  congr 2
  apply filterMap_congr
  intro a ha
  rw [dif_pos (hi a ha), valueAt_of_extends (extends_push body i) (hi a ha)]

section

variable {body : Array Instr} {t : ValueType} {a b c : Nat} {x y z : V}

theorem Instr.value_unary {op : UnaryOp} (ha : valueAt I body a = some x) :
    Instr.value I body ⟨t, .unary op a⟩ = I t (.unary op) [x] := by
  simp [Instr.value, Op.operator, Op.operands, ha]

theorem Instr.value_extract {k : Nat} (ha : valueAt I body a = some x) :
    Instr.value I body ⟨t, .extract a k⟩ = I t (.extract k) [x] := by
  simp [Instr.value, Op.operator, Op.operands, ha]

theorem Instr.value_binary {op : BinaryOp} (ha : valueAt I body a = some x)
    (hb : valueAt I body b = some y) :
    Instr.value I body ⟨t, .binary op a b⟩ = I t (.binary op) [x, y] := by
  simp [Instr.value, Op.operator, Op.operands, ha, hb]

theorem Instr.value_ternary {op : TernaryOp} (ha : valueAt I body a = some x)
    (hb : valueAt I body b = some y) (hc : valueAt I body c = some z) :
    Instr.value I body ⟨t, .ternary op a b c⟩ = I t (.ternary op) [x, y, z] := by
  simp [Instr.value, Op.operator, Op.operands, ha, hb, hc]

end

/-- Every instruction has a value. -/
theorem exists_valueAt (hid : id < body.size) : ∃ v, valueAt I body id = some v := by
  rw [valueAt, Array.getElem?_eq_getElem hid]
  exact ⟨_, rfl⟩

/-- Operands inside of a body all have values. -/
theorem map_valueAt {args : List Nat} (h : ∀ a ∈ args, a < body.size) :
    args.map (valueAt I body) = (args.filterMap (valueAt I body)).map some := by
  induction args with
  | nil => rfl
  | cons a args ih =>
    obtain ⟨v, hv⟩ := exists_valueAt (I := I) (h a mem_cons_self)
    rw [map_cons, ih fun b hb => h b (mem_cons_of_mem a hb)]
    rw [filterMap_cons_some hv, map_cons, hv]

end

/-! ## Values of routines -/

namespace Routine

variable {V : Type}

/-- The values of the results, in order. -/
def resultValues (I : Interpretation V) (r : Routine) : List (Option V) :=
  r.results.map (valueAt I r.body)

/-- The slots that are stored to, in order, with the values that are stored. -/
def storeValues (I : Interpretation V) (r : Routine) : List (Nat × Option V) :=
  r.stores.map fun s => (s.1, valueAt I r.body s.2)

theorem WellFormed.ordered {r : Routine} (h : r.WellFormed) : Ordered r.body :=
  h.operands

theorem wellFormed_iff {r : Routine} :
    r.WellFormed ↔ Ordered r.body ∧ (∀ a ∈ r.results, a < r.body.size) ∧
      ∀ s ∈ r.stores, s.2 < r.body.size :=
  ⟨fun h => ⟨h.ordered, h.results, h.stores⟩, fun h => ⟨h.1, h.2.1, h.2.2⟩⟩

instance (r : Routine) : Decidable r.WellFormed :=
  decidable_of_iff' _ wellFormed_iff

end Routine

end Shading
