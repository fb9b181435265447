import Shading.Lowering.Constant
import Shading.Proofs.Program.Meaning

/-!
# Lowering only appends

Lowering appends instructions, strings and pieces of data, and nothing that is there
changes.  So what an instruction computes, the id of a string and the place of a piece of
data stay what they are while lowering goes on.

Main definitions:

- `DataPool.Grows` and `LowerState.Grows` relate a state to a later one.
- `Ensures` says how every successful run ends.
- `Yields` says that a run ends with an instruction of a given value.

Main results:

- Theorems `stringId?_of_grows` and `lookup_of_grows`: ids and places stay.
- Theorem `Ensures.bind`: runs one after the other.
- Theorem `emit_yields`: an emitted instruction has the value of its operation.
-/

namespace Shading

open List

/-! ## Data -/

/-- A pool that holds everything another one holds, at the same places. -/
structure DataPool.Grows (p p' : DataPool) : Prop where
  strings : p.strings <+: p'.strings
  pieces : p.pieces <+: p'.pieces

namespace DataPool.Grows

theorem refl (p : DataPool) : p.Grows p :=
  ⟨prefix_refl _, prefix_refl _⟩

theorem trans {p q r : DataPool} (hpq : p.Grows q) (hqr : q.Grows r) : p.Grows r :=
  ⟨hpq.strings.trans hqr.strings, hpq.pieces.trans hqr.pieces⟩

end DataPool.Grows

/-- A string keeps its id. -/
theorem stringId?_of_grows {table longer : List String} (h : table <+: longer) {s : String}
    {id : Nat} (hs : stringId? table s = some id) : stringId? longer s = some id := by
  obtain ⟨rest, rfl⟩ := h
  unfold stringId? at hs ⊢
  rw [findIdx?_append, hs]
  rfl

/-- A piece of data keeps its place. -/
theorem lookup_of_grows {pieces longer : List (Bytes × Nat)} (h : pieces <+: longer)
    {piece : Bytes} {offset : Nat} (hpiece : pieces.lookup piece = some offset) :
    longer.lookup piece = some offset := by
  obtain ⟨rest, rfl⟩ := h
  rw [lookup_append, hpiece]
  rfl

theorem internString_grows (table : List String) (s : String) :
    table <+: (internString table s).2 := by
  unfold internString
  cases table with
  | nil => exact nil_prefix
  | cons first rest =>
    simp only [isEmpty_cons, Bool.false_eq_true, if_false]
    split
    · exact prefix_refl _
    · exact prefix_append _ _

/-- An interned string has the id that was given to it. -/
theorem stringId?_internString (table : List String) (s : String) :
    stringId? (internString table s).2 s = some (internString table s).1 := by
  unfold internString
  generalize (if table.isEmpty then [""] else table) = table
  dsimp only
  split
  · rename_i id hid
    exact hid
  · rename_i hnone
    unfold stringId? at hnone ⊢
    rw [findIdx?_append, hnone]
    simp

theorem internStrings_grows (table strings : List String) :
    table <+: internStrings table strings := by
  induction strings generalizing table with
  | nil => exact prefix_refl _
  | cons s strings ih => exact (internString_grows table s).trans (ih _)

/-- Interned strings have ids. -/
theorem stringId?_internStrings {table strings : List String} {s : String} (hs : s ∈ strings) :
    ∃ id, stringId? (internStrings table strings) s = some id := by
  induction strings generalizing table with
  | nil => cases hs
  | cons first strings ih =>
    rcases mem_cons.mp hs with rfl | hs
    · exact ⟨_, stringId?_of_grows (internStrings_grows _ strings)
        (stringId?_internString table s)⟩
    · exact ih hs

theorem DataPool.intern_grows (p : DataPool) (s : String) : p.Grows (p.intern s).2 :=
  ⟨internString_grows p.strings s, prefix_refl _⟩

theorem DataPool.addBytes_grows (p : DataPool) (piece : Bytes) : p.Grows (p.addBytes piece).2 := by
  unfold DataPool.addBytes
  split
  · exact Grows.refl p
  · exact ⟨prefix_refl _, prefix_append _ _⟩

/-- A piece of data is where it was placed. -/
theorem DataPool.lookup_addBytes (p : DataPool) (piece : Bytes) :
    (p.addBytes piece).2.pieces.lookup piece = some (p.addBytes piece).1 := by
  unfold DataPool.addBytes
  split
  · rename_i offset hoffset
    exact hoffset
  · rename_i hnone
    rw [lookup_append, hnone]
    simp

/-! ## States -/

/-- A later state of lowering: instructions and data are only appended, and instructions
that use earlier ones stay so. -/
structure LowerState.Grows (s s' : LowerState) : Prop where
  body : Extends s.body s'.body
  ordered : Ordered s.body → Ordered s'.body
  pool : s.pool.Grows s'.pool

namespace LowerState.Grows

theorem refl (s : LowerState) : s.Grows s :=
  ⟨Extends.refl _, id, DataPool.Grows.refl _⟩

theorem trans {s t u : LowerState} (hst : s.Grows t) (htu : t.Grows u) : s.Grows u :=
  ⟨hst.body.trans htu.body, htu.ordered ∘ hst.ordered, hst.pool.trans htu.pool⟩

end LowerState.Grows

/-! ## Runs -/

section

variable {α β : Type} {m : LowerM α} {f : α → LowerM β} {s t : LowerState}

theorem run_bind_of_ok {a : α} (h : m.run s = (.ok a, t)) : (m >>= f).run s = (f a).run t := by
  change ExceptT.bindCont f (m.run s).1 (m.run s).2 = _
  rw [h]
  rfl

/-- A run of two parts that succeeds has two parts that do. -/
theorem exists_of_run_bind {b : β} (h : (m >>= f).run s = (.ok b, t)) :
    ∃ a s₁, m.run s = (.ok a, s₁) ∧ (f a).run s₁ = (.ok b, t) := by
  change ExceptT.bindCont f (m.run s).1 (m.run s).2 = (.ok b, t) at h
  generalize m.run s = first at h ⊢
  obtain ⟨result, s₁⟩ := first
  cases result with
  | error e => cases h
  | ok a => exact ⟨a, s₁, rfl, h⟩

end

/-- Every successful run from a state ends as asked. -/
def Ensures {α : Type} (m : LowerM α) (s : LowerState) (Q : α → LowerState → Prop) : Prop :=
  ∀ a s', m.run s = (.ok a, s') → Q a s'

namespace Ensures

variable {α β : Type} {s : LowerState}

theorem pure {a : α} {Q : α → LowerState → Prop} (h : Q a s) : Ensures (Pure.pure a) s Q := by
  intro b s' hrun
  cases hrun
  exact h

theorem throw {e : LowerError} {Q : α → LowerState → Prop} : Ensures (MonadExcept.throw e) s Q := by
  intro b s' hrun
  cases hrun

/-- A check fails or gives a result, and changes nothing. -/
theorem lift (r : Except LowerError α) (s : LowerState) :
    Ensures (MonadLift.monadLift r) s fun a s' => r = .ok a ∧ s' = s := by
  intro a s' hrun
  cases r with
  | error e => cases hrun
  | ok b =>
    cases hrun
    exact ⟨rfl, rfl⟩

/-- One run after the other. -/
theorem bind {m : LowerM α} {f : α → LowerM β} {P : α → LowerState → Prop}
    {Q : β → LowerState → Prop} (hm : Ensures m s P)
    (hf : ∀ a s', P a s' → Ensures (f a) s' Q) : Ensures (m >>= f) s Q := by
  intro b s'' hrun
  obtain ⟨a, s', hfirst, hsecond⟩ := exists_of_run_bind hrun
  exact hf a s' (hm a s' hfirst) b s'' hsecond

theorem mono {m : LowerM α} {P Q : α → LowerState → Prop} (hm : Ensures m s P)
    (h : ∀ a s', P a s' → Q a s') : Ensures m s Q :=
  fun a s' hrun => h a s' (hm a s' hrun)

end Ensures

variable {s : LowerState}

/-- A run whose result is put into another form. -/
theorem run_bind_pure {α β : Type} (m : LowerM α) (f : α → β) (s : LowerState) :
    (m >>= fun a => pure (f a)).run s = ((m.run s).1.map f, (m.run s).2) := by
  change ExceptT.bindCont (fun a => (pure (f a) : LowerM β)) (m.run s).1 (m.run s).2 = _
  cases (m.run s).1 <;> rfl

theorem emit_ensures {t : ValueType} {op : Op} {Q : Nat → LowerState → Prop}
    (h : Q s.body.size { s with body := s.body.push ⟨t.storage, op⟩ }) :
    Ensures (emit t op) s Q := by
  intro id s' hrun
  cases hrun
  exact h

theorem modifyPool_ensures {α : Type} {f : DataPool → α × DataPool}
    {Q : α → LowerState → Prop} (h : Q (f s.pool).1 { s with pool := (f s.pool).2 }) :
    Ensures (modifyPool f) s Q := by
  intro a s' hrun
  cases hrun
  exact h

theorem noteUsage_grows (flag : StateFlag) (s : LowerState) :
    Ensures (noteUsage flag) s fun _ s' => s.Grows s' := by
  intro u s' hrun
  cases hrun
  exact ⟨Extends.refl _, id, DataPool.Grows.refl _⟩

theorem LowerState.grows_pool {pool : DataPool} (h : s.pool.Grows pool) : s.Grows { s with pool } :=
  ⟨Extends.refl _, id, h⟩

/-! ## Values -/

section

variable {V : Type} (I : Interpretation V)

/-- Instructions that have the given values. -/
def HaveValues (body : Array Instr) (ids : List Nat) (values : List V) : Prop :=
  ids.map (valueAt I body) = values.map some

/-- A run that ends with an instruction of the given value. -/
def Yields (s : LowerState) (value : Option V) (id : Nat) (s' : LowerState) : Prop :=
  s.Grows s' ∧ id < s'.body.size ∧ valueAt I s'.body id = value

variable {I}

theorem lt_size_of_valueAt {body : Array Instr} {id : Nat} {v : V}
    (h : valueAt I body id = some v) : id < body.size := by
  by_contra hid
  rw [valueAt_eq_none (Nat.le_of_not_lt hid)] at h
  cases h

theorem valueAt_of_extends_some {body longer : Array Instr} (hlonger : Extends body longer)
    {id : Nat} {v : V} (h : valueAt I body id = some v) : valueAt I longer id = some v := by
  rw [valueAt_of_extends hlonger (lt_size_of_valueAt h)]
  exact h

namespace HaveValues

variable {body : Array Instr}

variable {ids : List Nat} {vs : List V}

theorem nil : HaveValues I body [] [] :=
  rfl

theorem cons {id : Nat} {v : V} (h : valueAt I body id = some v)
    (hs : HaveValues I body ids vs) : HaveValues I body (id :: ids) (v :: vs) := by
  unfold HaveValues
  rw [map_cons, map_cons, h, hs]

theorem length_eq (h : HaveValues I body ids vs) : ids.length = vs.length := by
  simpa using congrArg List.length h

theorem getElem? (h : HaveValues I body ids vs) (k : Nat) :
    ids[k]?.bind (valueAt I body) = vs[k]? := by
  have hk := congrArg (·[k]?) h
  simp only [getElem?_map] at hk
  cases hid : ids[k]? <;> cases hv : vs[k]? <;> simp_all

theorem of_extends {longer : Array Instr} (hlonger : Extends body longer)
    (h : HaveValues I body ids vs) : HaveValues I longer ids vs := by
  induction ids generalizing vs with
  | nil => exact h
  | cons id ids ih =>
    cases vs with
    | nil => cases h
    | cons v vs =>
      have hid := List.cons.inj h
      exact cons (valueAt_of_extends_some hlonger hid.1) (ih hid.2)

theorem lt_size (h : HaveValues I body ids vs) : ∀ id ∈ ids, id < body.size := by
  intro id hid
  have hmem : valueAt I body id ∈ vs.map some := h ▸ mem_map_of_mem hid
  obtain ⟨v, _, hv⟩ := mem_map.mp hmem
  exact lt_size_of_valueAt hv.symm

theorem filterMap_eq (h : HaveValues I body ids vs) : ids.filterMap (valueAt I body) = vs := by
  have hmap := map_valueAt (I := I) h.lt_size
  rw [h] at hmap
  exact ((map_inj_right fun _ _ => Option.some.inj).mp hmap).symm

theorem unique {vs ws : List V} (hv : HaveValues I body ids vs)
    (hw : HaveValues I body ids ws) : vs = ws :=
  hv.filterMap_eq.symm.trans hw.filterMap_eq

end HaveValues

/-- An emitted instruction has the value of its operation. -/
theorem emit_yields {s : LowerState} {t : ValueType} {o : Op} {vs : List V}
    (hops : HaveValues I s.body o.operands vs) :
    Ensures (emit t o) s (Yields I s (some (I t.storage o.operator vs))) := by
  refine emit_ensures ⟨⟨extends_push _ _, fun h => h.push hops.lt_size,
    DataPool.Grows.refl _⟩, ?_, ?_⟩
  · exact lt_of_lt_of_eq (Nat.lt_succ_self _) (Array.size_push _).symm
  · rw [valueAt_push hops.lt_size, Instr.value, hops.filterMap_eq]

end

end Shading
