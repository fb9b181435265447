import Shading.Proofs.Program.Optimize

/-!
# Conditions that optimisation keeps

Optimisation renames operands, drops instructions, and puts in nothing but literals and
products.  So a condition on instructions that holds of literals and products, and does
not depend on operands, holds of an optimised routine if it held before.

Main definitions:

- `Instr.Robust` is said of such a condition.

Main results:

- Theorem `Routine.forall_optimize`: optimisation keeps robust conditions.
-/

namespace Shading

/-- A condition on instructions that does not depend on operands, and holds of literals
and products. -/
structure Instr.Robust (P : Instr → Prop) : Prop where
  renamed : ∀ {i : Instr} (f : Nat → Nat), P i → P (i.mapOperands f)
  literal : ∀ {t t' : ValueType} {op : Op}, op.literalType? = some t' → P ⟨t, op⟩
  product : ∀ {t : ValueType} {a b : Nat}, P ⟨t, .binary .mul a b⟩

variable {P : Instr → Prop}

theorem forall_emit {body : Array Instr} (hbody : ∀ j ∈ body, P j) {i : Instr} (hi : P i)
    (merge : Bool) : ∀ j ∈ (Simplified.emit merge body i).2, P j := by
  have hpush : ∀ j ∈ body.push i, P j := by
    intro j hj
    rcases Array.mem_push.mp hj with hj | rfl
    · exact hbody j hj
    · exact hi
  unfold Simplified.emit
  split
  · split
    · exact hbody
    · exact hpush
  · exact hpush

theorem forall_apply (hP : Instr.Robust P) {body : Array Instr} (hbody : ∀ j ∈ body, P j)
    {fast : Bool} {i : Instr} (hi : P i) {c : Simplification} (h : Simplifies body fast i c)
    (merge : Bool) : ∀ j ∈ (Simplified.apply merge body i c).2, P j := by
  cases h with
  | keep => exact forall_emit hbody hi merge
  | unary _ hfold =>
    obtain ⟨t, ht⟩ := (UnaryOp.fold?_literal hfold).2
    exact forall_emit hbody (hP.literal ht) merge
  | binary _ _ hfold =>
    obtain ⟨t, ht⟩ := (BinaryOp.fold?_literal hfold).2.2
    exact forall_emit hbody (hP.literal ht) merge
  | selectTrue | selectFalse | extract | rightUnit | leftUnit => exact hbody
  | reciprocal => exact forall_emit (forall_emit hbody (hP.literal rfl) merge) hP.product merge

/-- Taking the next instruction keeps the condition. -/
theorem forall_step (hP : Instr.Robust P) {s : Simplified} (hs : ∀ j ∈ s.body, P j) {i : Instr}
    (hi : P i) (merge fast : Bool) : ∀ j ∈ (s.step merge fast i).body, P j :=
  forall_apply hP hs (hP.renamed _ hi) (Instr.simplifies _ _ _) merge

namespace Routine

variable {r : Routine}

theorem forall_simplify (hP : Instr.Robust P) (h : ∀ i ∈ r.body, P i)
    (merge fast : Bool) : ∀ i ∈ (r.simplify merge fast).body, P i := by
  refine Array.foldl_induction (fun _ (s : Simplified) => ∀ j ∈ s.body, P j)
    (fun j hj => absurd hj (Array.not_mem_empty j)) fun n s hs => ?_
  exact forall_step hP hs (h _ (Array.getElem_mem n.isLt)) merge fast

theorem forall_dropDead (hP : Instr.Robust P) (h : ∀ i ∈ r.body, P i) :
    ∀ i ∈ r.dropDead.body, P i := by
  refine List.foldlRecOn (motive := fun (s : Simplified) => ∀ j ∈ s.body, P j)
    r.body.toList.zipIdx _ (fun j hj => absurd hj (Array.not_mem_empty j)) fun s hs i hi => ?_
  intro j hj
  unfold Simplified.keepNeeded at hj
  split at hj
  · rcases Array.mem_push.mp hj with hj | rfl
    · exact hs j hj
    · exact hP.renamed _ (h i.1 (Array.mem_toList_iff.mp (List.fst_mem_of_mem_zipIdx hi)))
  · exact hs j hj

/-- Optimisation keeps robust conditions. -/
theorem forall_optimize (hP : Instr.Robust P) (h : ∀ i ∈ r.body, P i)
    (level : Nat) (fast : Bool) : ∀ i ∈ (r.optimize level fast).body, P i := by
  unfold optimize
  split
  · exact h
  · split
    · exact forall_simplify hP h false fast
    · exact forall_dropDead hP (forall_simplify hP h true fast)

end Routine

end Shading
