import Mathlib.Data.Set.Function
import Shading.Proofs.Program.Optimize

/-!
# Optimisation reaches a normal form

One run of the passes leaves nothing to do.  Every instruction that is put into a body is
irreducible there, and stays so: what becomes of an instruction depends on its operands
and on their parts only, and these neither change when the body grows nor when the needed
instructions are renumbered.  So a second run moves nothing.

Main definitions:

- `Routine.Reached` says that results and stores lead to an instruction through operands.
- `Routine.Normal` says that every instruction is reached, unique and irreducible.
- `Settled` is what the first pass makes of a body, with merging or without.

Main results:

- Theorem `Instr.simplification_renamed`: simplification commutes with renaming.
- Theorem `Settled.run`: after the first pass a body is settled.
- Theorem `Routine.WellFormed.dropDead_normal`: renumbering keeps this.
- Theorem `optimize_reaches_normal_form` puts this together, and adds that a second run
  changes nothing.
-/

namespace Shading

open List

/-! ## Simplification under renaming -/

theorem UnaryOp.fold?_mapOperands (u : UnaryOp) (x : Op) (f : Nat → Nat) :
    u.fold? (x.mapOperands f) = u.fold? x := by
  cases x <;> cases u <;> rfl

theorem BinaryOp.fold?_mapOperands (o : BinaryOp) (x y : Op) (f : Nat → Nat) :
    o.fold? (x.mapOperands f) (y.mapOperands f) = o.fold? x y := by
  cases x <;> cases y <;> rfl

@[simp]
theorem Op.mapOperands_id (op : Op) : op.mapOperands id = op := by
  cases op <;> simp [Op.mapOperands]

@[simp]
theorem Instr.mapOperands_id (i : Instr) : i.mapOperands id = i := by
  simp [Instr.mapOperands]

theorem Op.mapOperands_mapOperands (f g : Nat → Nat) (op : Op) :
    (op.mapOperands f).mapOperands g = op.mapOperands (g ∘ f) := by
  cases op <;> simp [Op.mapOperands]

/-- What becomes of an instruction, in a body with other positions. -/
def Simplification.rename (f : Nat → Nat) : Simplification → Simplification
  | .keep => .keep
  | .alias id => .alias (f id)
  | .replace op => .replace op
  | .scale value factor => .scale (f value) factor

@[simp]
theorem Simplification.rename_id (c : Simplification) : c.rename id = c := by
  cases c <;> rfl

/-- An instruction is found in another body under its new name, with its operands renamed. -/
def Carried (f : Nat → Nat) (old new : Array Instr) (id : Nat) : Prop :=
  ∃ i, old[id]? = some i ∧ new[f id]? = some (i.mapOperands f)

namespace Carried

variable {f : Nat → Nat} {old new : Array Instr} {id : Nat}

theorem opAt_eq (h : Carried f old new id) :
    opAt new (f id) = (opAt old id).map (Op.mapOperands f) := by
  rcases h with ⟨i, hold, hnew⟩
  simp [opAt, hold, hnew, Instr.mapOperands]

theorem hasType_eq (h : Carried f old new id) (t : ValueType) :
    hasType new (f id) t = hasType old id t := by
  rcases h with ⟨i, hold, hnew⟩
  simp [hasType, hold, hnew, Instr.mapOperands]

end Carried

/-- Simplification commutes with renaming.  It looks at the operands of an instruction, and
at the parts of a value of which the instruction takes one. -/
theorem Instr.simplification_renamed {f : Nat → Nat} {old new : Array Instr} {i : Instr}
    (hoperands : ∀ a ∈ i.op.operands, Carried f old new a)
    (hparts : ∀ a ∈ i.op.operands, ∀ j, old[a]? = some j →
      ∀ b ∈ j.op.operands, Carried f old new b) :
    (i.mapOperands f).simplification new false = (i.simplification old false).rename f := by
  obtain ⟨t, op⟩ := i
  cases op with
  | unary u a =>
    have ha := hoperands a (by simp [Op.operands])
    have hfold : (opAt new (f a)).bind u.fold? = (opAt old a).bind u.fold? := by
      rw [ha.opAt_eq]
      cases opAt old a <;> simp [UnaryOp.fold?_mapOperands]
    simp only [simplification, mapOperands, Op.mapOperands, hfold]
    cases (opAt old a).bind u.fold? <;> rfl
  | binary o a b =>
    have ha := hoperands a (by simp [Op.operands])
    have hb := hoperands b (by simp [Op.operands])
    simp only [simplification, mapOperands, Op.mapOperands, binarySimplification, ha.opAt_eq,
      hb.opAt_eq, Bool.false_and]
    cases opAt old a with
    | none => rfl
    | some x =>
      cases opAt old b with
      | none => rfl
      | some y =>
        simp only [Option.map_some, BinaryOp.fold?_mapOperands]
        cases o.fold? x y <;> rfl
  | ternary o c a b =>
    have hc := hoperands c (by simp [Op.operands])
    have ha := hoperands a (by simp [Op.operands])
    have hb := hoperands b (by simp [Op.operands])
    cases o with
    | select =>
      simp only [simplification, mapOperands, Op.mapOperands, hc.opAt_eq, ha.hasType_eq,
        hb.hasType_eq]
      cases opAt old c with
      | none => rfl
      | some x =>
        cases x with
        | bool x => cases x <;> simp only [Option.map_some, Op.mapOperands] <;> split <;> rfl
        | _ => all_goals rfl
    | clamp | lerp => all_goals rfl
  | extract v k =>
    obtain ⟨⟨t', value⟩, hold, hnew⟩ := hoperands v (by simp [Op.operands])
    have hargs := hparts v (by simp [Op.operands]) _ hold
    simp only [simplification, mapOperands, Op.mapOperands, hold, hnew]
    cases value with
    | construct args =>
      simp only [getElem?_map, length_map]
      cases hk : args[k]? with
      | none => rfl
      | some b =>
        have hb := hargs b (mem_of_getElem? hk)
        simp only [Option.map_some, hb.hasType_eq]
        split <;> rfl
    | _ => all_goals rfl
  | _ => all_goals rfl

/-- What becomes of an instruction does not change when the body grows. -/
theorem Instr.simplification_of_extends {body longer : Array Instr} (hbody : Ordered body)
    (hgrows : Extends body longer) {i : Instr} (hi : ∀ a ∈ i.op.operands, a < body.size) :
    i.simplification longer false = i.simplification body false := by
  have hcarried : ∀ a < body.size, Carried id body longer a := by
    intro a ha
    have hin := Array.getElem?_eq_getElem ha
    exact ⟨_, hin, by simpa using hgrows _ _ hin⟩
  have hrenamed : (i.mapOperands id).simplification longer false
      = (i.simplification body false).rename id :=
    simplification_renamed (fun a ha => hcarried a (hi a ha))
      fun a ha j hj b hb => hcarried b ((hbody a j hj b hb).trans (hi a ha))
  simpa using hrenamed

theorem Instr.simplification_literal {op : Op} {t : ValueType} (h : op.literalType? = some t)
    (body : Array Instr) (fast : Bool) (t' : ValueType) :
    Instr.simplification body fast ⟨t', op⟩ = .keep := by
  cases op <;> first | rfl | cases h

/-! ## Settled bodies -/

/-- Nothing in a body can be simplified and, if instructions are merged, none is there
twice. -/
structure Settled (merge : Bool) (body : Array Instr) : Prop where
  irreducible : ∀ {id : Nat} {i : Instr}, body[id]? = some i →
    i.simplification body false = .keep
  distinct : merge = true → ∀ {id id' : Nat} {i : Instr}, body[id]? = some i →
    body[id']? = some i → id = id'

/-- Putting an instruction into a body finds it there, or appends it; if instructions are
merged, only new ones are appended. -/
theorem emit_cases (merge : Bool) (body : Array Instr) (i : Instr) :
    (∃ id : Nat, merge = true ∧ body[id]? = some i ∧
      Simplified.emit merge body i = (id, body)) ∨
      Simplified.emit merge body i = (body.size, body.push i) ∧
        (merge = true → ∀ id : Nat, body[id]? ≠ some i) := by
  cases merge with
  | false => exact Or.inr ⟨rfl, by simp⟩
  | true =>
    cases hfind : body.findIdx? fun other => decide (other = i) with
    | some id =>
      have hemit : Simplified.emit true body i = (id, body) := by
        simp [Simplified.emit, hfind]
      have hfound := (emit_placed true body i).found
      rw [hemit] at hfound
      exact Or.inl ⟨id, rfl, hfound, hemit⟩
    | none =>
      refine Or.inr ⟨by simp [Simplified.emit, hfind], fun _ id hid => ?_⟩
      have hother := Array.findIdx?_eq_none_iff.mp hfind i (Array.mem_of_getElem? hid)
      simp at hother

namespace Settled

variable {merge : Bool} {body : Array Instr}

theorem empty (merge : Bool) : Settled merge #[] where
  irreducible := by simp
  distinct := by simp

/-- An irreducible instruction can be appended, if it is new or nothing is merged. -/
theorem push (h : Settled merge body) (hbody : Ordered body) {i : Instr}
    (hi : ∀ a ∈ i.op.operands, a < body.size) (hkeep : i.simplification body false = .keep)
    (hnew : merge = true → ∀ id : Nat, body[id]? ≠ some i) : Settled merge (body.push i) where
  irreducible := by
    intro id j hj
    rw [Array.getElem?_push] at hj
    split at hj
    · cases hj
      rw [Instr.simplification_of_extends hbody (extends_push body i) hi, hkeep]
    · have hops : ∀ a ∈ j.op.operands, a < body.size := fun a ha =>
        (hbody id j hj a ha).trans (lt_size_of_getElem? hj)
      rw [Instr.simplification_of_extends hbody (extends_push body i) hops, h.irreducible hj]
  distinct := by
    intro hmerge id id' j hj hj'
    rw [Array.getElem?_push] at hj hj'
    split at hj <;> split at hj'
    · omega
    · cases hj
      exact absurd hj' (hnew hmerge id')
    · cases hj'
      exact absurd hj (hnew hmerge id)
    · exact h.distinct hmerge hj hj'

theorem emit (h : Settled merge body) (hbody : Ordered body) {i : Instr}
    (hi : ∀ a ∈ i.op.operands, a < body.size) (hkeep : i.simplification body false = .keep) :
    Settled merge (Simplified.emit merge body i).2 := by
  rcases emit_cases merge body i with ⟨id, _, _, hemit⟩ | ⟨hemit, hnew⟩
  · rw [hemit]
    exact h
  · rw [hemit]
    exact h.push hbody hi hkeep hnew

/-- What becomes of an instruction keeps a body settled. -/
theorem apply (h : Settled merge body) (hbody : Ordered body) {i : Instr}
    (hi : ∀ a ∈ i.op.operands, a < body.size) :
    Settled merge (Simplified.apply merge body i (i.simplification body false)).2 := by
  have hliteral : ∀ {c : Op}, (∃ t, c.literalType? = some t) →
      Settled merge (Simplified.emit merge body ⟨i.type, c⟩).2 := by
    rintro c ⟨t, ht⟩
    refine h.emit hbody ?_ (Instr.simplification_literal ht body false i.type)
    simp [Op.operands_of_literalType? ht]
  have hc := i.simplifies body false
  cases hresult : i.simplification body false with
  | keep => exact h.emit hbody hi hresult
  | «alias» id => exact h
  | replace c =>
    rw [hresult] at hc
    cases hc with
    | unary _ hfold => exact hliteral (UnaryOp.fold?_literal hfold).2
    | binary _ _ hfold => exact hliteral (BinaryOp.fold?_literal hfold).2.2
  | scale value factor =>
    -- only fast arithmetic multiplies by reciprocals
    rw [hresult] at hc
    cases hc with
    | reciprocal hfast => cases hfast

/-- After the first pass a body is settled. -/
theorem run (merge : Bool) {old : Array Instr} (hold : Ordered old) :
    Settled merge (old.foldl (Simplified.step merge false) .empty).body := by
  refine (tracks_induction merge hold (motive := fun _ s => Settled merge s.body) (empty merge)
    fun n s i htracks hi hsettled => ?_).2
  rw [Simplified.step_eq]
  exact hsettled.apply htracks.ordered (htracks.operands_lt hold hi)

end Settled

/-! ## Renumbering -/

/-- The invariant of the second pass after `n` instructions: it maps the needed instructions
to the new ones, one to one. -/
structure Renumbered (needed : List Nat) (s : Simplified) (n : Nat) : Prop where
  moved : s.moved.size = n
  lt : ∀ {id : Nat}, id < n → id ∈ needed → s.rename id < s.body.size
  inj : ∀ {id id' : Nat}, id < n → id' < n → id ∈ needed → id' ∈ needed →
    s.rename id = s.rename id' → id = id'
  onto : ∀ {k : Nat}, k < s.body.size → ∃ id < n, id ∈ needed ∧ s.rename id = k

namespace Renumbered

variable {needed : List Nat} {s : Simplified} {n : Nat}

theorem empty (needed : List Nat) : Renumbered needed .empty 0 where
  moved := rfl
  lt := by simp
  inj := by simp
  onto := by simp [Simplified.empty]

/-- A needed instruction gets the next number. -/
theorem keep (h : Renumbered needed s n) (hn : n ∈ needed) (i : Instr) :
    Renumbered needed ⟨s.body.push i, s.moved.push s.body.size⟩ (n + 1) := by
  have hold : ∀ {id}, id < n →
      Simplified.rename ⟨s.body.push i, s.moved.push s.body.size⟩ id = s.rename id :=
    fun hid => Simplified.rename_push_of_lt (h.moved.symm ▸ hid) _ _
  have hnew : Simplified.rename ⟨s.body.push i, s.moved.push s.body.size⟩ n = s.body.size :=
    Simplified.rename_push_of_eq h.moved _ _
  refine ⟨by simp [h.moved], ?_, ?_, ?_⟩
  · intro id hid hneeded
    rw [Array.size_push]
    rcases Nat.lt_succ_iff_lt_or_eq.mp hid with hid | rfl
    · rw [hold hid]
      exact Nat.lt_succ_of_lt (h.lt hid hneeded)
    · rw [hnew]
      exact Nat.lt_succ_self _
  · intro id id' hid hid' hneeded hneeded' heq
    rcases Nat.lt_succ_iff_lt_or_eq.mp hid with hid | rfl <;>
      rcases Nat.lt_succ_iff_lt_or_eq.mp hid' with hid' | rfl
    · rw [hold hid, hold hid'] at heq
      exact h.inj hid hid' hneeded hneeded' heq
    · rw [hold hid, hnew] at heq
      exact absurd heq (Nat.ne_of_lt (h.lt hid hneeded))
    · rw [hold hid', hnew] at heq
      exact absurd heq.symm (Nat.ne_of_lt (h.lt hid' hneeded'))
    · rfl
  · intro k hk
    rw [Array.size_push] at hk
    rcases Nat.lt_succ_iff_lt_or_eq.mp hk with hk | rfl
    · rcases h.onto hk with ⟨id, hid, hneeded, rfl⟩
      exact ⟨id, Nat.lt_succ_of_lt hid, hneeded, hold hid⟩
    · exact ⟨n, Nat.lt_succ_self n, hn, hnew⟩

/-- An instruction that is not needed gets no number. -/
theorem skip (h : Renumbered needed s n) (hn : n ∉ needed) :
    Renumbered needed ⟨s.body, s.moved.push 0⟩ (n + 1) := by
  have hlt : ∀ {id}, id < n + 1 → id ∈ needed → id < n := by
    intro id hid hneeded
    rcases Nat.lt_succ_iff_lt_or_eq.mp hid with hid | rfl
    · exact hid
    · exact absurd hneeded hn
  have hold : ∀ {id}, id < n → Simplified.rename ⟨s.body, s.moved.push 0⟩ id = s.rename id :=
    fun hid => Simplified.rename_push_of_lt (h.moved.symm ▸ hid) _ _
  refine ⟨by simp [h.moved], ?_, ?_, ?_⟩
  · intro id hid hneeded
    rw [hold (hlt hid hneeded)]
    exact h.lt (hlt hid hneeded) hneeded
  · intro id id' hid hid' hneeded hneeded' heq
    rw [hold (hlt hid hneeded), hold (hlt hid' hneeded')] at heq
    exact h.inj (hlt hid hneeded) (hlt hid' hneeded') hneeded hneeded' heq
  · intro k hk
    rcases h.onto hk with ⟨id, hid, hneeded, rfl⟩
    exact ⟨id, Nat.lt_succ_of_lt hid, hneeded, hold hid⟩

theorem step (h : Renumbered needed s n) (i : Instr) :
    Renumbered needed (s.keepNeeded needed (i, n)) (n + 1) := by
  unfold Simplified.keepNeeded
  split
  · exact h.keep ‹_› _
  · exact h.skip ‹_›

/-- After the second pass the needed instructions are numbered without gaps. -/
theorem run (needed : List Nat) (body : Array Instr) :
    Renumbered needed (body.toList.zipIdx.foldl (Simplified.keepNeeded needed) .empty)
      body.size :=
  keepNeeded_induction (motive := fun n s => Renumbered needed s n) body (empty needed)
    fun _ _ i _ hs => hs.step i

end Renumbered

/-! ## Normal routines -/

namespace Routine

variable {id : Nat}

/-- Results and stores lead to an instruction through operands. -/
inductive Reached (r : Routine) : Nat → Prop
  | root {id : Nat} : id ∈ r.roots → Reached r id
  | operand {id a : Nat} {i : Instr} : Reached r id → r.body[id]? = some i → a ∈ i.op.operands →
    Reached r a

/-- Every instruction is reached, no two instructions are the same, and none can be
simplified.  Instructions are the same if their types and operations are; a number format
has one NaN only. -/
structure Normal (r : Routine) : Prop where
  reached : ∀ id < r.body.size, r.Reached id
  distinct : ∀ (id id' : Nat) (i : Instr), r.body[id]? = some i → r.body[id']? = some i → id = id'
  irreducible : ∀ (id : Nat) (i : Instr), r.body[id]? = some i →
    i.simplification r.body false = .keep

/-- What is needed is reached.  The instructions are numbered from `k`. -/
theorem reached_of_needed {r : Routine} {body : List Instr} {k : Nat}
    (hbody : ∀ n : Nat, body[n]? = r.body[k + n]?)
    (hid : id ∈ neededIds (body.zipIdx k) r.roots) : r.Reached id := by
  induction body generalizing k id with
  | nil => exact .root hid
  | cons i body ih =>
    have hrest : ∀ n : Nat, body[n]? = r.body[k + 1 + n]? := by
      intro n
      rw [Nat.add_assoc, Nat.add_comm 1 n, ← hbody (n + 1)]
      rfl
    rw [zipIdx_cons] at hid
    rcases mem_neededIds_cons.mp hid with hid | ⟨hk, hid⟩
    · exact ih hrest hid
    · exact .operand (ih hrest hk) (hbody 0).symm hid

variable {r : Routine}

/-- An instruction is needed exactly if it is reached. -/
theorem WellFormed.needed_iff (h : r.WellFormed) :
    id ∈ neededIds r.body.toList.zipIdx r.roots ↔ r.Reached id := by
  constructor
  · exact reached_of_needed fun n => by simp
  · intro hid
    induction hid with
    | root hroot => exact mem_neededIds_of_mem hroot
    | operand _ hi ha ih => exact h.needed_closed _ _ hi ih _ ha

theorem WellFormed.reached_lt (h : r.WellFormed) (hid : r.Reached id) : id < r.body.size := by
  induction hid with
  | root hroot => exact h.roots_lt _ hroot
  | operand _ hi ha _ => exact (h.ordered _ _ hi _ ha).trans (lt_size_of_getElem? hi)

/-- The numbering of the second pass. -/
def kept (r : Routine) : Simplified :=
  r.body.toList.zipIdx.foldl
    (Simplified.keepNeeded (neededIds r.body.toList.zipIdx r.roots)) .empty

theorem dropDead_eq (r : Routine) : r.dropDead = r.withBody r.kept :=
  rfl

/-- What is reached is carried over. -/
theorem WellFormed.carried (h : r.WellFormed) (hid : r.Reached id) :
    Carried r.kept.rename r.body r.kept.body id := by
  have hlt := h.reached_lt hid
  have hin := Array.getElem?_eq_getElem hlt
  exact ⟨_, hin, h.kept_run.found hlt (h.needed_iff.mpr hid) hin⟩

/-- What remains was reached before. -/
theorem WellFormed.exists_reached (h : r.WellFormed) {k : Nat} {i : Instr}
    (hk : r.kept.body[k]? = some i) :
    ∃ id j, r.Reached id ∧ r.body[id]? = some j ∧ r.kept.rename id = k ∧
      j.mapOperands r.kept.rename = i := by
  have hrun := Renumbered.run (neededIds r.body.toList.zipIdx r.roots) r.body
  rcases hrun.onto (lt_size_of_getElem? hk) with ⟨id, _, hneeded, rfl⟩
  have hid := h.needed_iff.mp hneeded
  rcases h.carried hid with ⟨j, hj, hnew⟩
  rw [show r.kept.body[r.kept.rename id]? = some i from hk] at hnew
  exact ⟨id, j, hid, hj, rfl, (Option.some.inj hnew).symm⟩

theorem WellFormed.rename_inj (h : r.WellFormed) : Set.InjOn r.kept.rename {id | r.Reached id} := by
  intro id hid id' hid' heq
  exact (Renumbered.run (neededIds r.body.toList.zipIdx r.roots) r.body).inj (h.reached_lt hid)
    (h.reached_lt hid') (h.needed_iff.mpr hid) (h.needed_iff.mpr hid') heq

/-- Renaming does not identify instructions that are reached. -/
theorem WellFormed.mapOperands_inj (h : r.WellFormed) {k k' : Nat} {i j : Instr}
    (hk : r.Reached k) (hk' : r.Reached k') (hi : r.body[k]? = some i) (hj : r.body[k']? = some j)
    (heq : i.mapOperands r.kept.rename = j.mapOperands r.kept.rename) : i = j := by
  -- a left inverse of the numbering takes the new operands back to the old ones
  let back := Function.invFunOn r.kept.rename {id | r.Reached id}
  have hback : ∀ {k : Nat} {i : Instr}, r.Reached k → r.body[k]? = some i →
      (i.mapOperands r.kept.rename).mapOperands back = i := by
    intro k i hk hi
    have hops : ∀ a ∈ i.op.operands, (back ∘ r.kept.rename) a = id a := fun a ha =>
      h.rename_inj.leftInvOn_invFunOn (.operand hk hi ha)
    simp only [Instr.mapOperands, Op.mapOperands_mapOperands]
    rw [Op.mapOperands_congr hops, Op.mapOperands_id]
  rw [← hback hk hi, heq, hback hk' hj]

/-- Results and stores of the new routine lead to what was reached. -/
theorem WellFormed.reached_dropDead (h : r.WellFormed) (hid : r.Reached id) :
    r.dropDead.Reached (r.kept.rename id) := by
  induction hid with
  | root hroot =>
    refine .root ?_
    rcases mem_append.mp hroot with hroot | hroot
    · exact mem_append_left _ (mem_map_of_mem hroot)
    · rcases mem_map.mp hroot with ⟨store, hstore, rfl⟩
      refine mem_append_right _ (mem_map.mpr ⟨_, mem_map_of_mem hstore, rfl⟩)
  | @operand id a i hid hi ha ih =>
    rcases h.carried hid with ⟨j, hj, hnew⟩
    rw [hi] at hj
    cases hj
    refine .operand ih hnew ?_
    simpa [Instr.mapOperands] using ⟨a, ha, rfl⟩

/-- Dropping what is not needed makes a settled routine normal. -/
theorem WellFormed.dropDead_normal (h : r.WellFormed) (hsettled : Settled true r.body) :
    r.dropDead.Normal where
  reached := by
    intro k hk
    rcases h.exists_reached (Array.getElem?_eq_getElem hk) with ⟨id, _, hid, _, rfl, _⟩
    exact h.reached_dropDead hid
  distinct := by
    intro k k' i hk hk'
    rcases h.exists_reached hk with ⟨id, j, hid, hj, rfl, rfl⟩
    rcases h.exists_reached hk' with ⟨id', j', hid', hj', rfl, heq⟩
    cases h.mapOperands_inj hid' hid hj' hj heq
    rw [hsettled.distinct rfl hj hj']
  irreducible := by
    intro k i hk
    rcases h.exists_reached hk with ⟨id, j, hid, hj, rfl, rfl⟩
    have hoperand : ∀ {id i}, r.Reached id → r.body[id]? = some i → ∀ a ∈ i.op.operands,
        r.Reached a := fun hid hi _ ha => .operand hid hi ha
    have hrenamed : (j.mapOperands r.kept.rename).simplification r.kept.body false
        = (j.simplification r.body false).rename r.kept.rename :=
      Instr.simplification_renamed (fun a ha => h.carried (hoperand hid hj a ha))
        fun a ha j' hj' b hb => h.carried (hoperand (hoperand hid hj a ha) hj' b hb)
    rw [hsettled.irreducible hj] at hrenamed
    exact hrenamed

end Routine

/-! ## A second run -/

/-- A pass over a body has moved nothing in the first `n` instructions. -/
structure Unmoved (body : Array Instr) (s : Simplified) (n : Nat) : Prop where
  size : s.body.size = n
  grows : Extends s.body body
  moved : s.moved.size = n
  rename : ∀ {id : Nat}, id < n → s.rename id = id

namespace Unmoved

variable {body : Array Instr} {s : Simplified} {n : Nat} {i : Instr}

theorem empty (body : Array Instr) : Unmoved body .empty 0 where
  size := rfl
  grows := by simp [Extends, Simplified.empty]
  moved := rfl
  rename := by simp

/-- The operands of the next instruction keep their names. -/
theorem mapOperands (h : Unmoved body s n) (hbody : Ordered body) (hi : body[n]? = some i) :
    i.mapOperands s.rename = i := by
  have hops : ∀ a ∈ i.op.operands, s.rename a = id a := fun a ha =>
    h.rename (hbody n i hi a ha)
  rw [Instr.mapOperands, Op.mapOperands_congr hops, Op.mapOperands_id]

theorem push (h : Unmoved body s n) (hi : body[n]? = some i) :
    Unmoved body ⟨s.body.push i, s.moved.push s.body.size⟩ (n + 1) := by
  refine ⟨by simp [h.size], ?_, by simp [h.moved], ?_⟩
  · intro id j hj
    rw [Array.getElem?_push, h.size] at hj
    split at hj
    · rename_i hid
      rw [hid, hi, hj]
    · exact h.grows id j hj
  · intro id hid
    rcases Nat.lt_succ_iff_lt_or_eq.mp hid with hid | rfl
    · rw [Simplified.rename_push_of_lt (h.moved.symm ▸ hid), h.rename hid]
    · rw [Simplified.rename_push_of_eq h.moved, h.size]

/-- The first pass moves nothing in a settled body. -/
theorem step {merge : Bool} (h : Unmoved body s n) (hbody : Ordered body)
    (hsettled : Settled merge body) (hi : body[n]? = some i) :
    Unmoved body (s.step merge false i) (n + 1) := by
  have hordered : Ordered s.body := fun id j hj => hbody id j (h.grows id j hj)
  have hops : ∀ a ∈ i.op.operands, a < s.body.size := fun a ha => h.size ▸ hbody n i hi a ha
  have hkeep : i.simplification s.body false = .keep := by
    rw [← Instr.simplification_of_extends hordered h.grows hops, hsettled.irreducible hi]
  have hemit : Simplified.emit merge s.body i = (s.body.size, s.body.push i) := by
    rcases emit_cases merge s.body i with ⟨id, hmerge, hid, _⟩ | ⟨hemit, _⟩
    · -- the same instruction at an earlier place would be there twice
      have hsame := hsettled.distinct hmerge (h.grows id i hid) hi
      have hlt := lt_size_of_getElem? hid
      rw [h.size] at hlt
      omega
    · exact hemit
  rw [Simplified.step_eq, h.mapOperands hbody hi, hkeep]
  change Unmoved body ⟨(Simplified.emit merge s.body i).2,
    s.moved.push (Simplified.emit merge s.body i).1⟩ (n + 1)
  rw [hemit]
  exact h.push hi

/-- The second pass moves nothing if everything is needed. -/
theorem keepNeeded (h : Unmoved body s n) (hbody : Ordered body) {needed : List Nat}
    (hn : n ∈ needed) (hi : body[n]? = some i) :
    Unmoved body (s.keepNeeded needed (i, n)) (n + 1) := by
  rw [Simplified.keepNeeded, if_pos hn, h.mapOperands hbody hi]
  exact h.push hi

/-- Where nothing moved, a routine stays as it is. -/
theorem withBody {r : Routine} (h : Unmoved r.body s r.body.size) (hr : r.WellFormed) :
    r.withBody s = r := by
  have hsame : s.body = r.body := by
    refine Array.ext h.size fun k hk hk' => ?_
    have hin := h.grows k _ (Array.getElem?_eq_getElem hk)
    rw [Array.getElem?_eq_getElem hk'] at hin
    exact (Option.some.inj hin).symm
  have hresults : r.results.map s.rename = r.results :=
    (map_congr_left fun id hid => h.rename (hr.results id hid)).trans (map_id' _)
  have hstores : (r.stores.map fun store => (store.1, s.rename store.2)) = r.stores :=
    (map_congr_left fun store hstore => by rw [h.rename (hr.stores store hstore)]).trans
      (map_id' _)
  rw [Routine.withBody, hsame, hresults, hstores]

end Unmoved

namespace Routine

variable {r : Routine}

/-- Simplifying a settled routine changes nothing. -/
theorem WellFormed.simplify_settled (h : r.WellFormed) {merge : Bool}
    (hsettled : Settled merge r.body) : r.simplify merge false = r := by
  refine Unmoved.withBody ?_ h
  refine Array.foldl_induction (fun n s => Unmoved r.body s n) (Unmoved.empty r.body) ?_
  intro n s hs
  exact hs.step h.ordered hsettled (Array.getElem?_eq_getElem n.isLt)

/-- Where everything is reached, nothing is dropped. -/
theorem WellFormed.dropDead_reached (h : r.WellFormed)
    (hreached : ∀ id < r.body.size, r.Reached id) : r.dropDead = r := by
  refine Unmoved.withBody ?_ h
  refine keepNeeded_induction (motive := fun n s => Unmoved r.body s n) r.body
    (Unmoved.empty r.body) fun n s i hi hs => ?_
  exact hs.keepNeeded h.ordered (h.needed_iff.mpr (hreached n (lt_size_of_getElem? hi))) hi

theorem Normal.settled (h : r.Normal) : Settled true r.body where
  irreducible := h.irreducible _ _
  distinct _ := h.distinct _ _ _

/-- Both passes bring a routine into normal form. -/
theorem WellFormed.optimize_normal (h : r.WellFormed) {level : Nat} (hlevel : 2 ≤ level) :
    (r.optimize level false).Normal := by
  have hzero : level ≠ 0 := by omega
  have hone : level ≠ 1 := by omega
  rw [Routine.optimize, if_neg hzero, if_neg hone]
  exact (h.simplify true false).dropDead_normal (Settled.run true h.ordered)

/-- A second run of a level changes nothing. -/
theorem WellFormed.optimize_optimize (h : r.WellFormed) (level : Nat) :
    (r.optimize level false).optimize level false = r.optimize level false := by
  by_cases hzero : level = 0
  · simp [Routine.optimize, hzero]
  by_cases hone : level = 1
  · simp only [Routine.optimize, hone, if_true, Nat.one_ne_zero, if_false]
    exact (h.simplify false false).simplify_settled (Settled.run false h.ordered)
  · have hnormal : (r.optimize level false).Normal := h.optimize_normal (by omega)
    have hwell := h.optimize level false
    generalize r.optimize level false = r' at hnormal hwell
    rw [Routine.optimize, if_neg hzero, if_neg hone, hwell.simplify_settled hnormal.settled]
    exact hwell.dropDead_reached hnormal.reached

end Routine

/-! ## The theorem -/

/-- One run reaches the normal form.  Without fast arithmetic both passes leave a well-formed
routine in which results and stores lead to every instruction, no two instructions are the
same, and none can be simplified; and at every level a second run changes nothing. -/
theorem optimize_reaches_normal_form {r : Routine} (hr : r.WellFormed) :
    (∀ level, 2 ≤ level → (r.optimize level false).Normal) ∧
      ∀ level, (r.optimize level false).optimize level false = r.optimize level false :=
  ⟨fun _ hlevel => hr.optimize_normal hlevel, hr.optimize_optimize⟩

/-- A routine in which one simplification leads to the next: the comparison is folded, so
that the selection is the time, and only then are the two sums the same. -/
def pulse : Routine :=
  { Routine.empty "pulse" .lambda .core with
    body := #[⟨.float, .float 2⟩, ⟨.float, .float 3⟩, ⟨.bool, .binary .less 0 1⟩,
      ⟨.float, .state .animationTime⟩, ⟨.float, .state .animationTime⟩,
      ⟨.float, .ternary .select 2 4 0⟩, ⟨.float, .binary .add 3 5⟩, ⟨.float, .binary .add 4 3⟩,
      ⟨.float, .binary .mul 6 7⟩]
    results := [8]
    stores := [(0, 5)] }

theorem optimize_reaches_normal_form_pulse :
    (pulse.optimize 2 false).body = #[⟨.float, .state .animationTime⟩,
        ⟨.float, .binary .add 0 0⟩, ⟨.float, .binary .mul 1 1⟩] ∧
      pulse.WellFormed ∧ (∀ level, 2 ≤ level → (pulse.optimize level false).Normal) ∧
      ∀ level, (pulse.optimize level false).optimize level false = pulse.optimize level false :=
  ⟨by decide +kernel, by decide, optimize_reaches_normal_form (by decide)⟩

end Shading
