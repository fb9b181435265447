import Shading.Proofs.Program.Conditions
import Shading.Proofs.Program.NormalForm
import Shading.Shader.Module

/-!
# Types of literals under optimisation

A literal should have the scalar type of its value, for it is written as a scalar.
Folding puts a literal in the place of an operator and gives it the type of the operator.
This is the type of the literal unless the operator takes nothing but scalars and is no
scalar itself.  Minimum, maximum and power can be such operators: in shader text their
operands are repeated to a vector.

Main definitions:

- `Instr.LiteralTyped` says that an instruction, if it is a literal, has its scalar type.
- `Instr.ScalarTyped` says that an operator on scalars is a scalar.

Main results:

- Theorem `Tracks.literalsTyped_step`: one instruction keeps literals well typed.
- Theorem `optimize_keeps_literals_typed`: so does optimisation if operators on scalars are
  scalars, and it keeps the types of results in any case.
- Theorem `spread_minimum_is_mistyped`: the condition cannot be left out.
-/

namespace Shading

open List

/-! ## Kinds of scalars -/

/-- The kind of the literals of a type.  A string is the integer by which it is known. -/
def ValueType.literalKind? : ValueType → Option ScalarType
  | .bool => some .bool
  | .int | .string => some .int
  | .float => some .float
  | .double => some .double
  | _ => none

/-- The kind of a literal. -/
def Op.literalKind? : Op → Option ScalarType
  | .bool _ => some .bool
  | .int _ => some .int
  | .float _ => some .float
  | .double _ => some .double
  | _ => none

/-- What an operator makes of two scalars of a kind. -/
def BinaryOp.resultKind : BinaryOp → ScalarType → ScalarType
  | .less, _ | .lessEqual, _ | .greater, _ | .equal, _ => .bool
  | _, k => k

/-- The kind of scalar at a position. -/
def kindAt (body : Array Instr) (id : Nat) : Option ScalarType :=
  body[id]?.bind fun i => i.type.literalKind?

/-- A literal has the scalar type of its value. -/
def Instr.LiteralTyped (i : Instr) : Prop :=
  ∀ k ∈ i.op.literalKind?, i.type.literalKind? = some k

instance (i : Instr) : Decidable i.LiteralTyped :=
  inferInstanceAs (Decidable (∀ k ∈ i.op.literalKind?, i.type.literalKind? = some k))

/-- An operator whose operands are scalars of a kind is the scalar that it makes of them. -/
def Instr.ScalarTyped (body : Array Instr) (i : Instr) : Prop :=
  match i.op with
  | .unary _ a => ∀ k ∈ kindAt body a, i.type.literalKind? = some k
  | .binary o a b =>
    ∀ k ∈ kindAt body a, k ∈ kindAt body b → i.type.literalKind? = some (o.resultKind k)
  | _ => True

instance (body : Array Instr) (i : Instr) : Decidable (i.ScalarTyped body) := by
  unfold Instr.ScalarTyped
  split <;> infer_instance

theorem UnaryOp.fold?_kind {u : UnaryOp} {x c : Op} (h : u.fold? x = some c) :
    ∃ k, x.literalKind? = some k ∧ c.literalKind? = some k := by
  unfold UnaryOp.fold? at h
  split at h <;> cases h <;> exact ⟨_, rfl, rfl⟩

theorem BinaryOp.fold?_kind {o : BinaryOp} {x y c : Op} (h : o.fold? x y = some c) :
    ∃ k, x.literalKind? = some k ∧ y.literalKind? = some k ∧
      c.literalKind? = some (o.resultKind k) := by
  unfold BinaryOp.fold? at h
  split at h
  · refine ⟨.float, rfl, rfl, ?_⟩
    cases o <;> cases h <;> rfl
  · refine ⟨.int, rfl, rfl, ?_⟩
    cases o
    case div =>
      rcases Option.map_eq_some_iff.mp h with ⟨q, _, rfl⟩
      rfl
    all_goals cases h <;> rfl
  · refine ⟨.bool, rfl, rfl, ?_⟩
    cases o <;> cases h <;> rfl
  · cases h

theorem Instr.literalTyped_mapOperands {i : Instr} (h : i.LiteralTyped) (f : Nat → Nat) :
    (i.mapOperands f).LiteralTyped := by
  obtain ⟨t, op⟩ := i
  cases op <;> exact h

/-- Well-typed literals tell their kind by their type. -/
theorem kindAt_of_literal {body : Array Instr} (hbody : ∀ i ∈ body, i.LiteralTyped) {id : Nat}
    {x : Op} (hx : opAt body id = some x) {k : ScalarType} (hk : x.literalKind? = some k) :
    kindAt body id = some k := by
  rcases opAt_eq_some_iff.mp hx with ⟨t, hi⟩
  have htyped := hbody _ (Array.mem_of_getElem? hi) k hk
  simp [kindAt, hi, htyped]

/-! ## The first pass -/

namespace Tracks

variable {fast : Bool} {old : Array Instr} {s : Simplified} {n : Nat}

/-- An instruction has moved to one of its type. -/
theorem type_eq (h : Tracks fast old s n) (hn : n ≤ old.size) {id : Nat} (hid : id < n) :
    s.body[s.rename id]?.map Instr.type = old[id]?.map Instr.type := by
  have hi := Array.getElem?_eq_getElem (Nat.lt_of_lt_of_le hid hn)
  rcases hasType_iff.mp (h.type hid hi) with ⟨j, hj, htype⟩
  simp [hi, hj, htype]

theorem kindAt_eq (h : Tracks fast old s n) (hn : n ≤ old.size) {id : Nat} (hid : id < n) :
    kindAt s.body (s.rename id) = kindAt old id := by
  have htype := congrArg (Option.bind · ValueType.literalKind?) (h.type_eq hn hid)
  simpa [kindAt, Option.bind_map, Function.comp_def] using htype

/-- An operand that moved to a literal is a scalar of its kind. -/
theorem kindAt_operand (h : Tracks fast old s n) (hn : n ≤ old.size)
    (hs : ∀ j ∈ s.body, j.LiteralTyped) {a : Nat} (ha : a < n) {x : Op}
    (hx : opAt s.body (s.rename a) = some x) {k : ScalarType} (hk : x.literalKind? = some k) :
    kindAt old a = some k := by
  rw [← h.kindAt_eq hn ha]
  exact kindAt_of_literal hs hx hk

/-- One instruction keeps literals well typed. -/
theorem literalsTyped_step (h : Tracks fast old s n) (hold : Ordered old) (merge : Bool)
    (hs : ∀ j ∈ s.body, j.LiteralTyped) {i : Instr} (hi : old[n]? = some i)
    (hliteral : i.LiteralTyped) (hscalar : i.ScalarTyped old) :
    ∀ j ∈ (s.step merge fast i).body, j.LiteralTyped := by
  have hn : n ≤ old.size := Nat.le_of_lt (lt_size_of_getElem? hi)
  have hc := (i.mapOperands s.rename).simplifies s.body fast
  have hkeep := Instr.literalTyped_mapOperands hliteral s.rename
  have hproduct : ∀ {t : ValueType} {a b : Nat}, (Instr.mk t (.binary .mul a b)).LiteralTyped := by
    simp [Instr.LiteralTyped, Op.literalKind?]
  rw [Simplified.step_eq]
  generalize (i.mapOperands s.rename).simplification s.body fast = c at hc
  generalize hj : i.mapOperands s.rename = j at hc hkeep
  cases hc with
  | keep => exact forall_emit hs hkeep merge
  | unary hx hfold =>
    rcases Instr.mapOperands_eq_unary hold hi hj with ⟨a, ha, rfl, rfl⟩
    rcases UnaryOp.fold?_kind hfold with ⟨k, hxk, hck⟩
    have hkind := h.kindAt_operand hn hs ha hx hxk
    refine forall_emit hs ?_ merge
    intro k' hk'
    rw [hck] at hk'
    cases hk'
    exact hscalar k hkind
  | binary hx hy hfold =>
    rcases Instr.mapOperands_eq_binary hold hi hj with ⟨a, ha, b, hb, rfl, rfl, rfl⟩
    rcases BinaryOp.fold?_kind hfold with ⟨k, hxk, hyk, hck⟩
    have hkind := h.kindAt_operand hn hs ha hx hxk
    refine forall_emit hs ?_ merge
    intro k' hk'
    rw [hck] at hk'
    cases hk'
    exact hscalar k hkind (h.kindAt_operand hn hs hb hy hyk)
  | selectTrue | selectFalse | extract | rightUnit | leftUnit => all_goals exact hs
  | reciprocal => exact forall_emit (forall_emit hs (by simp [Instr.LiteralTyped, Op.literalKind?,
      ValueType.literalKind?]) merge) hproduct merge

end Tracks

/-! ## Routines -/

namespace Routine

variable {r : Routine}

theorem WellFormed.simplify_literalsTyped (h : r.WellFormed)
    (hliterals : ∀ i ∈ r.body, i.LiteralTyped) (hscalars : ∀ i ∈ r.body, i.ScalarTyped r.body)
    (merge fast : Bool) : ∀ i ∈ (r.simplify merge fast).body, i.LiteralTyped := by
  refine (tracks_induction merge h.ordered (motive := fun _ s => ∀ j ∈ s.body, j.LiteralTyped)
    (by simp [Simplified.empty]) fun n s i htracks hi hs => ?_).2
  have hmem := Array.mem_of_getElem? hi
  exact htracks.literalsTyped_step h.ordered merge hs hi (hliterals _ hmem) (hscalars _ hmem)

theorem WellFormed.dropDead_literalsTyped (h : r.WellFormed)
    (hliterals : ∀ i ∈ r.body, i.LiteralTyped) : ∀ i ∈ r.dropDead.body, i.LiteralTyped := by
  intro i hi
  rcases Array.getElem?_of_mem hi with ⟨k, hk⟩
  rcases h.exists_reached hk with ⟨_, j, _, hj, _, rfl⟩
  exact Instr.literalTyped_mapOperands (hliterals j (Array.mem_of_getElem? hj)) _

/-- The types of results and of what is stored are the same as in another routine. -/
def SameTypes (r r' : Routine) : Prop :=
  r'.results.map r'.type? = r.results.map r.type? ∧
    (r'.stores.map fun s => (s.1, r'.type? s.2)) = r.stores.map fun s => (s.1, r.type? s.2)

theorem SameTypes.trans {a b c : Routine} (hab : a.SameTypes b) (hbc : b.SameTypes c) :
    a.SameTypes c :=
  ⟨hbc.1.trans hab.1, hbc.2.trans hab.2⟩

/-- A body that keeps the types of what results and stores use. -/
theorem withBody_sameTypes {s : Simplified}
    (h : ∀ id ∈ r.roots, s.body[s.rename id]?.map Instr.type = r.body[id]?.map Instr.type) :
    r.SameTypes (r.withBody s) := by
  constructor
  · simp only [withBody, map_map]
    exact map_congr_left fun id hid => h id (mem_append_left _ hid)
  · simp only [withBody, map_map]
    refine map_congr_left fun store hstore => ?_
    have hroot : store.2 ∈ r.roots := mem_append_right _ (mem_map_of_mem hstore)
    exact congrArg (Prod.mk store.1) (h _ hroot)

theorem WellFormed.simplify_sameTypes (h : r.WellFormed) (merge fast : Bool) :
    r.SameTypes (r.simplify merge fast) :=
  withBody_sameTypes fun id hid =>
    (tracks_run merge fast h.ordered).type_eq (Nat.le_refl _) (h.roots_lt id hid)

theorem WellFormed.dropDead_sameTypes (h : r.WellFormed) : r.SameTypes r.dropDead := by
  rw [dropDead_eq]
  refine withBody_sameTypes fun id hid => ?_
  rcases h.carried (.root hid) with ⟨i, hi, hnew⟩
  rw [hnew, hi]
  rfl

theorem WellFormed.optimize_sameTypes (h : r.WellFormed) (level : Nat) (fast : Bool) :
    r.SameTypes (r.optimize level fast) := by
  unfold Routine.optimize
  split
  · exact ⟨rfl, rfl⟩
  · split
    · exact h.simplify_sameTypes false fast
    · exact (h.simplify_sameTypes true fast).trans (h.simplify true fast).dropDead_sameTypes

theorem WellFormed.optimize_literalsTyped (h : r.WellFormed)
    (hliterals : ∀ i ∈ r.body, i.LiteralTyped) (hscalars : ∀ i ∈ r.body, i.ScalarTyped r.body)
    (level : Nat) (fast : Bool) : ∀ i ∈ (r.optimize level fast).body, i.LiteralTyped := by
  unfold Routine.optimize
  split
  · exact hliterals
  · split
    · exact h.simplify_literalsTyped hliterals hscalars false fast
    · exact (h.simplify true fast).dropDead_literalsTyped
        (h.simplify_literalsTyped hliterals hscalars true fast)

end Routine

/-! ## The theorem -/

/-- Optimisation keeps literals well typed.  At every level, with fast arithmetic or without,
results and stores of a well-formed routine keep their types.  If the literals of the routine
have the scalar types of their values, and its operators on scalars are scalars, then the
literals of the optimised routine have the scalar types of their values. -/
theorem optimize_keeps_literals_typed {r : Routine} (hr : r.WellFormed)
    (hliterals : ∀ i ∈ r.body, i.LiteralTyped) (level : Nat) (fast : Bool) :
    r.SameTypes (r.optimize level fast) ∧
      ((∀ i ∈ r.body, i.ScalarTyped r.body) →
        ∀ i ∈ (r.optimize level fast).body, i.LiteralTyped) :=
  ⟨hr.optimize_sameTypes level fast, fun hscalars =>
    hr.optimize_literalsTyped hliterals hscalars level fast⟩

/-- A routine with a literal for a string, in which scalars are repeated to vectors: one
operand of a maximum, the bounds of a clamp, and what a selection leaves out. -/
def clampedNormal : Routine :=
  { Routine.empty "clamped_normal" .switchLambda .core with
    body := #[⟨.float, .float 0.5⟩, ⟨.float, .float 2⟩, ⟨.float, .binary .mul 0 1⟩,
      ⟨.vector .float 3, .state .normal⟩, ⟨.vector .float 3, .binary .max 3 2⟩,
      ⟨.vector .float 3, .ternary .clamp 4 0 1⟩, ⟨.bool, .binary .less 0 1⟩,
      ⟨.vector .float 3, .ternary .select 6 5 0⟩, ⟨.vector .float 3, .binary .div 7 1⟩,
      ⟨.string, .int 7⟩]
    results := [8, 9] }

theorem optimize_keeps_literals_typed_clampedNormal :
    (clampedNormal.optimize 2 true).body = #[⟨.float, .float 0.5⟩, ⟨.float, .float 2⟩,
        ⟨.float, .float 1⟩, ⟨.vector .float 3, .state .normal⟩,
        ⟨.vector .float 3, .binary .max 3 2⟩, ⟨.vector .float 3, .ternary .clamp 4 0 1⟩,
        ⟨.vector .float 3, .binary .mul 5 0⟩, ⟨.string, .int 7⟩] ∧
      clampedNormal.SameTypes (clampedNormal.optimize 2 true) ∧
      ∀ i ∈ (clampedNormal.optimize 2 true).body, i.LiteralTyped :=
  have htheorem := optimize_keeps_literals_typed (r := clampedNormal) (by decide) (by decide) 2 true
  ⟨by decide +kernel, htheorem.1, htheorem.2 (by decide)⟩

/-- The minimum of two literals that are repeated to a vector. -/
def spreadMinimum : Routine :=
  { Routine.empty "spread_minimum" .lambda .core with
    body := #[⟨.float, .float 1⟩, ⟨.float, .float 2⟩, ⟨.vector .float 3, .binary .min 0 1⟩]
    results := [2] }

/-- In shader text both operands of the minimum are repeated.  Folding leaves a literal in its
place, which is a number but has the type of the vector. -/
theorem spread_minimum_is_mistyped :
    spreadMinimum.WellFormed ∧ (∀ i ∈ spreadMinimum.body, i.LiteralTyped) ∧
      ((binaryText spreadMinimum (.vector .float 3) .min 0 1).run .empty).map (.map Phrase.text id)
        = .ok ("min(vec3<f32>(v0), vec3<f32>(v1))", .empty) ∧
      (spreadMinimum.optimize 1 false).body[2]? = some ⟨.vector .float 3, .float 1⟩ ∧
      ¬∀ i ∈ (spreadMinimum.optimize 1 false).body, i.LiteralTyped :=
  ⟨by decide, by decide, by decide +kernel, by decide +kernel, by decide +kernel⟩

end Shading
