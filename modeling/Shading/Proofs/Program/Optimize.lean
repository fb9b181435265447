import Shading.Proofs.Program.Simplify

/-!
# Optimisation preserves meaning

A routine returns and stores the same values after the passes of every level.  The first
pass is dealt with in `Shading.Proofs.Program.Simplify`.  The second one drops
instructions and renumbers the rest.

Main results:

- Theorem `neededIds_closed`: what a needed instruction uses is needed.
- Theorem `Routine.WellFormed.kept_run`: the needed instructions are kept, with their
  operands renamed.
- Theorem `valueAt_renamed`: renamed instructions have the values of the old ones.
- Theorems `Routine.withBody_wellFormed`, `Routine.withBody_resultValues` and
  `Routine.withBody_storeValues`: a body that keeps the values that results and stores
  use makes a well-formed routine of the same meaning.
- Theorem `optimize_preserves_meaning`: optimisation keeps a routine well formed, and
  keeps its header and its meaning.
-/

namespace Shading

open List

variable {i : Instr} {outside : List Nat} {r : Routine} {fast : Bool}

/-! ## Needed instructions -/

theorem mem_neededIds_cons {k x : Nat} {body : List (Instr × Nat)} :
    x ∈ neededIds ((i, k) :: body) outside ↔
      x ∈ neededIds body outside ∨ k ∈ neededIds body outside ∧ x ∈ i.op.operands := by
  change x ∈ (if k ∈ neededIds body outside then i.op.operands ++ neededIds body outside
    else neededIds body outside) ↔ _
  split
  · rename_i hk
    rw [mem_append]
    constructor
    · rintro (hx | hx)
      · exact Or.inr ⟨hk, hx⟩
      · exact Or.inl hx
    · rintro (hx | ⟨_, hx⟩)
      · exact Or.inr hx
      · exact Or.inl hx
  · rename_i hk
    constructor
    · exact Or.inl
    · rintro (hx | ⟨hk', _⟩)
      · exact hx
      · exact absurd hk' hk

/-- What is needed from outside is needed. -/
theorem mem_neededIds_of_mem {body : List (Instr × Nat)} {x : Nat} (hx : x ∈ outside) :
    x ∈ neededIds body outside := by
  induction body with
  | nil => exact hx
  | cons i body ih => exact mem_neededIds_cons.mpr (Or.inl ih)

/-- What a needed instruction uses is needed.  The instructions are numbered from `k`. -/
theorem neededIds_closed {body : List Instr} {k : Nat}
    (hbody : ∀ (n : Nat) (i : Instr), body[n]? = some i → ∀ a ∈ i.op.operands, a < k + n) {n : Nat}
    (hi : body[n]? = some i) (hn : k + n ∈ neededIds (body.zipIdx k) outside) :
    ∀ a ∈ i.op.operands, a ∈ neededIds (body.zipIdx k) outside := by
  induction body generalizing k n with
  | nil => cases hi
  | cons j body ih =>
    intro a ha
    rw [zipIdx_cons] at hn ⊢
    have hj : ∀ a ∈ j.op.operands, a < k := hbody 0 j rfl
    -- an instruction uses earlier ones only, so nothing before it can need it later on
    have hlater : k + n ∈ neededIds (body.zipIdx (k + 1)) outside := by
      rcases mem_neededIds_cons.mp hn with hn | ⟨_, hn⟩
      · exact hn
      · have := hj _ hn
        omega
    cases n with
    | zero =>
      cases hi
      exact mem_neededIds_cons.mpr (Or.inr ⟨hlater, ha⟩)
    | succ n =>
      refine mem_neededIds_cons.mpr (Or.inl (ih ?_ hi ?_ a ha))
      · intro m i hi a ha
        have := hbody (m + 1) i hi a ha
        omega
      · rwa [Nat.add_right_comm, Nat.add_assoc]

/-! ## Keeping the needed instructions -/

/-- An invariant of the pass, which takes the instructions of a body with their numbers. -/
theorem keepNeeded_induction {needed : List Nat} {motive : Nat → Simplified → Prop}
    (body : Array Instr) (hempty : motive 0 .empty)
    (hstep : ∀ n s i, body[n]? = some i → motive n s →
      motive (n + 1) (s.keepNeeded needed (i, n))) :
    motive body.size (body.toList.zipIdx.foldl (Simplified.keepNeeded needed) .empty) := by
  have hrun (rest : List Instr) (n : Nat) (s : Simplified)
      (hrest : ∀ k : Nat, rest[k]? = body[n + k]?) (hs : motive n s) :
      motive (n + rest.length) ((rest.zipIdx n).foldl (Simplified.keepNeeded needed) s) := by
    induction rest generalizing n s with
    | nil => exact hs
    | cons i rest ih =>
      rw [zipIdx_cons, foldl_cons, length_cons, Nat.add_comm rest.length,
        ← Nat.add_assoc]
      refine ih (n + 1) _ (fun k => ?_) (hstep n s i (hrest 0).symm hs)
      rw [Nat.add_assoc, Nat.add_comm 1 k, ← hrest (k + 1)]
      rfl
  have hbody := hrun body.toList 0 .empty (fun k => by rw [Nat.zero_add, Array.getElem?_toList])
    hempty
  rwa [Nat.zero_add, Array.length_toList] at hbody

/-- The invariant of the pass after `n` instructions: the body is ordered, and the needed
instructions are there, with their operands renamed. -/
structure Kept (old : Array Instr) (needed : List Nat) (s : Simplified) (n : Nat) : Prop where
  moved : s.moved.size = n
  ordered : Ordered s.body
  found : ∀ {id : Nat} {i : Instr}, id < n → id ∈ needed → old[id]? = some i →
    s.body[s.rename id]? = some (i.mapOperands s.rename)

namespace Kept

variable {old : Array Instr} {needed : List Nat} {s : Simplified} {n : Nat}

/-- Recording where the next instruction moved to keeps the invariant. -/
theorem push (h : Kept old needed s n) (hold : Ordered old) {i : Instr}
    (hi : old[n]? = some i) {m : Nat} {body : Array Instr} (hbody : Ordered body)
    (hgrows : Extends s.body body)
    (hfound : n ∈ needed → body[m]? = some (i.mapOperands s.rename)) :
    Kept old needed ⟨body, s.moved.push m⟩ (n + 1) := by
  have hlt : ∀ {id}, id < n → Simplified.rename ⟨body, s.moved.push m⟩ id = s.rename id :=
    fun hid => Simplified.rename_push_of_lt (h.moved.symm ▸ hid) _ _
  have hmap : ∀ {id j}, id ≤ n → old[id]? = some j →
      j.mapOperands (Simplified.rename ⟨body, s.moved.push m⟩) = j.mapOperands s.rename := by
    intro id j hid hj
    unfold Instr.mapOperands
    rw [Op.mapOperands_congr fun a ha => hlt (Nat.lt_of_lt_of_le (hold id j hj a ha) hid)]
  refine ⟨by rw [Array.size_push, h.moved], hbody, ?_⟩
  intro id j hid hneeded hj
  rcases Nat.lt_succ_iff_lt_or_eq.mp hid with hid | rfl
  · rw [hlt hid, hmap (Nat.le_of_lt hid) hj]
    exact hgrows _ _ (h.found hid hneeded hj)
  · rw [Simplified.rename_push_of_eq h.moved, hmap (Nat.le_refl _) hj]
    rw [hi] at hj
    cases hj
    exact hfound hneeded

/-- One instruction keeps the invariant. -/
theorem step (h : Kept old needed s n) (hold : Ordered old)
    (hclosed : ∀ (id : Nat) (i : Instr), old[id]? = some i → id ∈ needed →
      ∀ a ∈ i.op.operands, a ∈ needed) {i : Instr} (hi : old[n]? = some i) :
    Kept old needed (s.keepNeeded needed (i, n)) (n + 1) := by
  unfold Simplified.keepNeeded
  split
  · rename_i hneeded
    refine h.push hold hi (h.ordered.push ?_) (extends_push _ _) fun _ =>
      Array.getElem?_push_size
    intro a ha
    simp only [Instr.mapOperands, Op.operands_mapOperands, mem_map] at ha
    obtain ⟨b, hb, rfl⟩ := ha
    have hbn : b < n := hold n i hi b hb
    have hin := Array.getElem?_eq_getElem (Nat.lt_trans hbn (lt_size_of_getElem? hi))
    exact lt_size_of_getElem? (h.found hbn (hclosed n i hi hneeded b hb) hin)
  · rename_i hneeded
    exact h.push hold hi h.ordered (Extends.refl _) fun hn => absurd hn hneeded

end Kept

/-- Renamed instructions have the values of the old ones. -/
theorem valueAt_renamed {V : Type} {I : Interpretation V} {old new : Array Instr}
    (hold : Ordered old) (hnew : Ordered new) {needed : List Nat} {f : Nat → Nat}
    (hclosed : ∀ (id : Nat) (i : Instr), old[id]? = some i → id ∈ needed →
      ∀ a ∈ i.op.operands, a ∈ needed)
    (hfound : ∀ (id : Nat) (i : Instr), id ∈ needed → old[id]? = some i →
      new[f id]? = some (i.mapOperands f)) {id : Nat} (hi : old[id]? = some i)
    (hneeded : id ∈ needed) : valueAt I new (f id) = valueAt I old id := by
  induction id using Nat.strongRecOn generalizing i with
  | ind id ih =>
    rw [valueAt_eq hnew (hfound id i hneeded hi), valueAt_eq hold hi]
    refine congrArg some (Instr.value_mapOperands fun a ha => ?_)
    have haid : a < id := hold id i hi a ha
    have hin := Array.getElem?_eq_getElem (Nat.lt_trans haid (lt_size_of_getElem? hi))
    exact ih a haid hin (hclosed id i hi hneeded a ha)

/-! ## Routines -/

namespace Routine

/-- What a pass keeps of a routine: the header, the number of results, and the slots of the
stores. -/
structure SameHeader (r r' : Routine) : Prop where
  name : r'.name = r.name
  kind : r'.kind = r.kind
  context : r'.context = r.context
  argBlock : r'.argBlock = r.argBlock
  results : r'.results.length = r.results.length
  stores : r'.stores.map Prod.fst = r.stores.map Prod.fst

theorem SameHeader.refl (r : Routine) : SameHeader r r :=
  ⟨rfl, rfl, rfl, rfl, rfl, rfl⟩

theorem SameHeader.trans {a b c : Routine} (hab : SameHeader a b) (hbc : SameHeader b c) :
    SameHeader a c where
  name := hbc.name.trans hab.name
  kind := hbc.kind.trans hab.kind
  context := hbc.context.trans hab.context
  argBlock := hbc.argBlock.trans hab.argBlock
  results := hbc.results.trans hab.results
  stores := hbc.stores.trans hab.stores

theorem withBody_sameHeader (r : Routine) (s : Simplified) : SameHeader r (r.withBody s) where
  name := rfl
  kind := rfl
  context := rfl
  argBlock := rfl
  results := length_map _
  stores := by simp [withBody]

theorem withBody_wellFormed {s : Simplified} (hbody : Ordered s.body)
    (hroots : ∀ id ∈ r.roots, s.rename id < s.body.size) : (r.withBody s).WellFormed where
  operands := hbody
  results := by
    intro a ha
    obtain ⟨id, hid, rfl⟩ := mem_map.mp ha
    exact hroots id (mem_append_left _ hid)
  stores := by
    intro a ha
    obtain ⟨store, hstore, rfl⟩ := mem_map.mp ha
    exact hroots store.2 (mem_append_right _ (mem_map_of_mem hstore))

section

variable {V : Type} {I : Interpretation V} {r : Routine} {s : Simplified}

theorem withBody_resultValues
    (h : ∀ id ∈ r.roots, valueAt I s.body (s.rename id) = valueAt I r.body id) :
    (r.withBody s).resultValues I = r.resultValues I := by
  simp only [resultValues, withBody, map_map]
  exact map_congr_left fun id hid => h id (mem_append_left _ hid)

theorem withBody_storeValues
    (h : ∀ id ∈ r.roots, valueAt I s.body (s.rename id) = valueAt I r.body id) :
    (r.withBody s).storeValues I = r.storeValues I := by
  simp only [storeValues, withBody, map_map]
  refine map_congr_left fun store hstore => ?_
  have hroot : store.2 ∈ r.roots := mem_append_right _ (mem_map_of_mem hstore)
  simp only [Function.comp_apply, h _ hroot]

end

theorem WellFormed.roots_lt (h : r.WellFormed) : ∀ id ∈ r.roots, id < r.body.size := by
  intro id hid
  rcases mem_append.mp hid with hid | hid
  · exact h.results id hid
  · obtain ⟨store, hstore, rfl⟩ := mem_map.mp hid
    exact h.stores store hstore

/-! ## The passes -/

/-- What a needed instruction of a routine uses is needed. -/
theorem WellFormed.needed_closed (h : r.WellFormed) (id : Nat) (i : Instr)
    (hi : r.body[id]? = some i) (hid : id ∈ neededIds r.body.toList.zipIdx r.roots) :
    ∀ a ∈ i.op.operands, a ∈ neededIds r.body.toList.zipIdx r.roots := by
  refine neededIds_closed ?_ (n := id) (by rw [Array.getElem?_toList, hi]) (by rwa [Nat.zero_add])
  intro n j hj a ha
  rw [Array.getElem?_toList] at hj
  rw [Nat.zero_add]
  exact h.ordered n j hj a ha

theorem WellFormed.simplify (h : r.WellFormed) (merge fast : Bool) :
    (r.simplify merge fast).WellFormed :=
  have htracks := tracks_run merge fast h.ordered
  withBody_wellFormed htracks.ordered fun id hid =>
    htracks.rename_lt (Nat.le_refl _) (h.roots_lt id hid)

/-- What results and stores need is kept. -/
theorem WellFormed.kept_run (h : r.WellFormed) :
    Kept r.body (neededIds r.body.toList.zipIdx r.roots)
      (r.body.toList.zipIdx.foldl
        (Simplified.keepNeeded (neededIds r.body.toList.zipIdx r.roots)) .empty) r.body.size :=
  keepNeeded_induction (motive := fun n s => Kept r.body _ s n) r.body
    ⟨rfl, ordered_empty, fun hid => absurd hid (Nat.not_lt_zero _)⟩
    fun _ _ _ hi hs => hs.step h.ordered h.needed_closed hi

theorem WellFormed.dropDead (h : r.WellFormed) : r.dropDead.WellFormed := by
  refine withBody_wellFormed h.kept_run.ordered fun id hid => ?_
  have hlt := h.roots_lt id hid
  exact lt_size_of_getElem?
    (h.kept_run.found hlt (mem_neededIds_of_mem hid) (Array.getElem?_eq_getElem hlt))

theorem WellFormed.optimize {r : Routine} (h : r.WellFormed) (level : Nat) (fast : Bool) :
    (r.optimize level fast).WellFormed := by
  unfold Routine.optimize
  split
  · exact h
  · split
    · exact h.simplify false fast
    · exact (h.simplify true fast).dropDead

theorem optimize_sameHeader (r : Routine) (level : Nat) (fast : Bool) :
    SameHeader r (r.optimize level fast) := by
  unfold Routine.optimize
  split
  · exact SameHeader.refl r
  · split
    · exact withBody_sameHeader _ _
    · exact (withBody_sameHeader _ _).trans (withBody_sameHeader _ _)

/-- What a routine returns and stores is the same as for another one. -/
def SameValues {V : Type} (I : Interpretation V) (r r' : Routine) : Prop :=
  r'.resultValues I = r.resultValues I ∧ r'.storeValues I = r.storeValues I

section

variable {V : Type} {I : Interpretation V} {r : Routine}

theorem WellFormed.simplify_sameValues (h : r.WellFormed) (merge : Bool)
    (hfolds : I.FoldsOn fast r.body) (hI : I.Folds) (hfast : fast = true → I.FastOn r.body) :
    SameValues I r (r.simplify merge fast) := by
  have hvalues := valueAt_run merge h.ordered hfolds hI hfast
  have hroots := fun id hid => hvalues id (h.roots_lt id hid)
  exact ⟨withBody_resultValues hroots, withBody_storeValues hroots⟩

theorem WellFormed.dropDead_sameValues (h : r.WellFormed) : SameValues I r r.dropDead := by
  have hlt : ∀ id i, r.body[id]? = some i → id < r.body.size := fun _ _ => lt_size_of_getElem?
  have hvalues : ∀ id ∈ r.roots, _ = valueAt I r.body id := fun id hid =>
    valueAt_renamed h.ordered h.kept_run.ordered h.needed_closed
      (fun id i hneeded hi => h.kept_run.found (hlt id i hi) hneeded hi)
      (Array.getElem?_eq_getElem (h.roots_lt id hid)) (mem_neededIds_of_mem hid)
  exact ⟨withBody_resultValues hvalues, withBody_storeValues hvalues⟩

theorem WellFormed.optimize_sameValues_of_foldsOn (h : r.WellFormed) (level : Nat)
    (hfolds : I.FoldsOn fast r.body) (hI : I.Folds) (hfast : fast = true → I.FastOn r.body) :
    SameValues I r (r.optimize level fast) := by
  unfold Routine.optimize
  split
  · exact ⟨rfl, rfl⟩
  · split
    · exact h.simplify_sameValues false hfolds hI hfast
    · have hfirst := h.simplify_sameValues true hfolds hI hfast
      have hsecond := (h.simplify true fast).dropDead_sameValues (I := I)
      exact ⟨hsecond.1.trans hfirst.1, hsecond.2.trans hfirst.2⟩

theorem WellFormed.optimize_sameValues (h : r.WellFormed) (level : Nat)
    (htyped : FoldsTyped fast r.body) (hI : I.Folds) (hfast : fast = true → I.FastOn r.body) :
    SameValues I r (r.optimize level fast) :=
  h.optimize_sameValues_of_foldsOn level (htyped.foldsOn hI) hI hfast

end

end Routine

/-! ## A machine that obeys the equations -/

/-- The values of a small machine: literals, values made of parts, and one for all that it
cannot compute. -/
inductive Datum
  | literal (x : Op)
  | parts (values : List Datum)
  | unknown

/-- The machine applies operators to literals, and reads the time from its state. -/
def Datum.machine (time : Float32) : Interpretation Datum
  | _, .bool b, [] => .literal (.bool b)
  | _, .int n, [] => .literal (.int n)
  | _, .float x, [] => .literal (.float x)
  | _, .double x, [] => .literal (.double x)
  | _, .state .animationTime, [] => .literal (.float time)
  | _, .construct, values => .parts values
  | _, .extract k, [.parts values] => values[k]?.getD .unknown
  | _, .unary op, [.literal x] => ((op.fold? x).map .literal).getD .unknown
  | _, .binary op, [.literal x, .literal y] => ((op.fold? x y).map .literal).getD .unknown
  | _, .ternary .select, [.literal (.bool true), x, _] => x
  | _, .ternary .select, [.literal (.bool false), _, y] => y
  | _, _, _ => .unknown

theorem Datum.machine_literal {x : Op} {t : ValueType} (hx : x.literalType? = some t)
    (time : Float32) (t' : ValueType) : Datum.machine time t' x.operator [] = .literal x := by
  cases x <;> first | rfl | cases hx

/-- An operator that neither calls the runtime nor reads a texture result. -/
def Operator.isInternal : Operator → Bool
  | .textureResult _ | .runtimeCall _ => false
  | _ => true

/-- Whatever the runtime and the texture results give, an interpretation that is the machine
otherwise obeys the equations at every type. -/
theorem Datum.foldsAnywhere_of_machine {I : Interpretation Datum} {time : Float32}
    (h : ∀ t o vs, o.isInternal → I t o vs = machine time t o vs) : I.FoldsAnywhere := by
  have hliteral {x : Op} {t : ValueType} (hx : x.literalType? = some t) (t' : ValueType) :
      I t' x.operator [] = .literal x := by
    rw [← machine_literal hx time t']
    cases x <;> first | exact h _ _ _ rfl | cases hx
  have hunary {u : UnaryOp} {x c : Op} (t t' : ValueType) (hfold : u.fold? x = some c) :
      I t (.unary u) [I t' x.operator []] = I t c.operator [] := by
    obtain ⟨⟨_, hx⟩, _, hc⟩ := UnaryOp.fold?_literal hfold
    rw [hliteral hx, hliteral hc, h _ _ _ rfl]
    change ((u.fold? x).map Datum.literal).getD .unknown = _
    rw [hfold]
    rfl
  have hbinary {o : BinaryOp} {x y c : Op} (t t' t'' : ValueType)
      (hfold : o.fold? x y = some c) :
      I t (.binary o) [I t' x.operator [], I t'' y.operator []] = I t c.operator [] := by
    obtain ⟨⟨_, hx⟩, ⟨_, hy⟩, _, hc⟩ := BinaryOp.fold?_literal hfold
    rw [hliteral hx, hliteral hy, hliteral hc, h _ _ _ rfl]
    change ((o.fold? x y).map Datum.literal).getD .unknown = _
    rw [hfold]
    rfl
  refine ⟨⟨fun t' hfold _ => hunary _ t' hfold, fun t' t'' hfold _ => hbinary _ t' t'' hfold,
    ?_, ?_, ?_⟩, hunary, hbinary⟩
  · intro t a t' b _
    rw [h t' _ _ rfl, h t _ _ rfl]
    rfl
  · intro t b t' a _
    rw [h t' _ _ rfl, h t _ _ rfl]
    rfl
  · intro t t' parts k a _ ha _
    rw [h t' _ _ rfl, h t _ _ rfl]
    change parts[k]?.getD .unknown = _
    rw [ha]
    rfl

theorem Datum.machine_folds (time : Float32) : (Datum.machine time).Folds :=
  (foldsAnywhere_of_machine fun _ _ _ _ => rfl).toFolds

/-- A routine that scales the time by one and selects it by a folded condition. -/
def scaledTime : Routine :=
  { Routine.empty "scaled_time" .lambda .core with
    body := #[⟨.bool, .bool true⟩, ⟨.float, .state .animationTime⟩, ⟨.float, .float 1⟩,
      ⟨.float, .binary .mul 1 2⟩, ⟨.bool, .unary .not 0⟩, ⟨.float, .ternary .select 4 2 3⟩]
    results := [5]
    stores := [(0, 3)] }

theorem scaledTime_foldsTyped : FoldsTyped true scaledTime.body where
  unary := by
    intro id t u a x c hi hx hfold
    have hmem := Array.mem_of_getElem? hi
    simp [scaledTime] at hmem
    obtain ⟨rfl, rfl, rfl⟩ := hmem
    obtain rfl := hx.eq_of_leaf (i := ⟨.bool, .bool true⟩) rfl rfl
    cases hfold
    rfl
  binary := by
    intro id t o a b x y c hi hx hy hfold
    have hmem := Array.mem_of_getElem? hi
    simp [scaledTime] at hmem
    obtain ⟨rfl, rfl, rfl, rfl⟩ := hmem
    obtain rfl := hx.eq_of_leaf (i := ⟨.float, .state .animationTime⟩) rfl rfl
    cases hfold

theorem scaledTime_fastOn : (Datum.machine 0.5).FastOn scaledTime.body where
  rightUnit := by
    intro id t o a b c x v w hi _ _ _ _ _ hv hw
    have hmem := Array.mem_of_getElem? hi
    simp [scaledTime] at hmem
    obtain ⟨rfl, rfl, rfl, rfl⟩ := hmem
    have hordered : Ordered scaledTime.body := by decide
    have htime : valueAt (Datum.machine 0.5) scaledTime.body 1 =
        some (.literal (.float 0.5)) :=
      valueAt_eq hordered (i := ⟨.float, .state .animationTime⟩) rfl
    have hone : valueAt (Datum.machine 0.5) scaledTime.body 2 =
        some (.literal (.float 1)) :=
      valueAt_eq hordered (i := ⟨.float, .float 1⟩) rfl
    have hproduct : (0.5 * 1 : Float32) = 0.5 := by decide
    obtain rfl := Option.some.inj (htime.symm.trans hv)
    obtain rfl := Option.some.inj (hone.symm.trans hw)
    exact congrArg (fun x => Datum.literal (.float x)) hproduct
  leftUnit := by
    intro id t o a b c x v w hi _ _ hx
    have hmem := Array.mem_of_getElem? hi
    simp [scaledTime] at hmem
    obtain ⟨rfl, rfl, rfl, rfl⟩ := hmem
    cases hx.eq_of_leaf (i := ⟨.float, .state .animationTime⟩) rfl rfl
  reciprocal := by
    intro id t a b c v w hi
    have hmem := Array.mem_of_getElem? hi
    simp [scaledTime] at hmem

/-! ## The theorem -/

/-- Optimisation preserves meaning.  At every level a well-formed routine stays well formed,
keeps its header, its number of results and the slots of its stores, and in every state
returns and stores the same values.  The interpretation has to obey the equations of
folding, selection and extraction and, for fast arithmetic, the identities that the
routine gives occasion to use. -/
theorem optimize_preserves_meaning {V State : Type} {r : Routine} (hr : r.WellFormed)
    {fast : Bool} (htyped : FoldsTyped fast r.body) (I : State → Interpretation V)
    (hI : ∀ state, (I state).Folds) (hfast : fast = true → ∀ state, (I state).FastOn r.body)
    (level : Nat) :
    (r.optimize level fast).WellFormed ∧ r.SameHeader (r.optimize level fast) ∧
      ∀ state, (r.optimize level fast).resultValues (I state) = r.resultValues (I state) ∧
        (r.optimize level fast).storeValues (I state) = r.storeValues (I state) :=
  ⟨hr.optimize level fast, r.optimize_sameHeader level fast, fun state =>
    hr.optimize_sameValues level htyped (hI state) fun h => hfast h state⟩

theorem optimize_preserves_meaning_scaledTime :
    (scaledTime.optimize 2 true).body = #[⟨.float, .state .animationTime⟩] ∧
      (scaledTime.optimize 2 true).WellFormed ∧
      scaledTime.SameHeader (scaledTime.optimize 2 true) ∧
      ∀ _ : Unit, (scaledTime.optimize 2 true).resultValues (Datum.machine 0.5) =
          scaledTime.resultValues (Datum.machine 0.5) ∧
        (scaledTime.optimize 2 true).storeValues (Datum.machine 0.5) =
          scaledTime.storeValues (Datum.machine 0.5) :=
  ⟨by decide +kernel, optimize_preserves_meaning (by decide) scaledTime_foldsTyped
    (fun _ => Datum.machine 0.5) (fun _ => Datum.machine_folds 0.5)
    (fun _ _ => scaledTime_fastOn) 2⟩

end Shading
