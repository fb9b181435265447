import Shading.Program.Optimize
import Shading.Proofs.Program.Meaning

/-!
# Simplification preserves meaning

The pass that folds, forwards and merges instructions keeps the value of every
instruction, under every interpretation that obeys the equations the pass uses.

Main definitions:

- `Interpretation.Folds` holds the equations of constant folding, selection and extraction;
  `Interpretation.FastOn` holds those of fast arithmetic, where a body uses them.
- `Reduces` says which operation stands for an instruction, and `FoldsTyped` that what is
  folded has the type of its instruction.  `Interpretation.FoldsOn` asks for the equations
  of folding at the types of a body, whatever these are.

Main results:

- Theorem `Instr.simplifies`: what becomes of an instruction, case by case.
- Theorem `apply_value`: what is put in the place of an instruction has its value.
- Theorem `tracks_run`: after the pass every instruction is in range, has its type, and is
  transparent only if it reduces to what stands there.
- Theorem `valueAt_run`: after the pass every instruction has its value.
-/

namespace Shading

open List

variable {op x : Op} {t : ValueType} {f : Nat → Nat} {V : Type} {I : Interpretation V} {fast : Bool}
  {body : Array Instr} {id a' : Nat} {i : Instr} {c : Simplification}

/-! ## Literals and neutral operands -/

/-- The scalar type of a literal. -/
def Op.literalType? : Op → Option ValueType
  | .bool _ => some .bool
  | .int _ => some .int
  | .float _ => some .float
  | .double _ => some .double
  | _ => none

/-- Operations that a simplification looks through: literals and values made of parts. -/
def Op.isTransparent : Op → Bool
  | .bool _ | .int _ | .float _ | .double _ | .construct _ => true
  | _ => false

/-- The right operand that leaves the left one as it is. -/
def BinaryOp.rightUnit? : BinaryOp → Option Float32
  | .mul => some 1
  | .add | .sub => some 0
  | _ => none

/-- The left operand that leaves the right one as it is. -/
def BinaryOp.leftUnit? : BinaryOp → Option Float32
  | .mul => some 1
  | .add => some 0
  | _ => none

theorem Op.operands_of_literalType? (h : op.literalType? = some t) : op.operands = [] := by
  cases op <;> simp_all [Op.literalType?, Op.operands]

theorem Op.mapOperands_of_literalType? (h : op.literalType? = some t) (f : Nat → Nat) :
    op.mapOperands f = op := by
  cases op <;> simp_all [Op.literalType?, Op.mapOperands]

theorem Op.isTransparent_of_literalType? (h : op.literalType? = some t) :
    op.isTransparent = true := by
  cases op <;> simp_all [Op.literalType?, Op.isTransparent]

/-- Renaming operands does not touch a literal. -/
theorem Op.eq_of_mapOperands_literal (hx : x.literalType? = some t) (h : x = op.mapOperands f) :
    op = x := by
  cases op <;> simp_all [Op.mapOperands, Op.literalType?]

theorem Op.eq_of_mapOperands_construct {args : List Nat}
    (h : Op.construct args = op.mapOperands f) : ∃ old, op = .construct old ∧ args = old.map f := by
  cases op <;> simp_all [Op.mapOperands]

theorem Op.mapOperands_congr {g : Nat → Nat} (h : ∀ a ∈ op.operands, f a = g a) :
    op.mapOperands f = op.mapOperands g := by
  cases op <;> simp_all [Op.mapOperands, Op.operands]

/-- Only literals are folded, and only to literals. -/
theorem UnaryOp.fold?_literal {u : UnaryOp} {c : Op} (h : u.fold? x = some c) :
    (∃ t, x.literalType? = some t) ∧ ∃ t, c.literalType? = some t := by
  unfold UnaryOp.fold? at h
  split at h <;> cases h <;> exact ⟨⟨_, rfl⟩, _, rfl⟩

theorem BinaryOp.fold?_literal {o : BinaryOp} {y c : Op} (h : o.fold? x y = some c) :
    (∃ t, x.literalType? = some t) ∧ (∃ t, y.literalType? = some t) ∧
      ∃ t, c.literalType? = some t := by
  unfold BinaryOp.fold? at h
  split at h
  · refine ⟨⟨_, rfl⟩, ⟨_, rfl⟩, ?_⟩
    cases o <;> cases h <;> exact ⟨_, rfl⟩
  · refine ⟨⟨_, rfl⟩, ⟨_, rfl⟩, ?_⟩
    cases o
    case div =>
      obtain ⟨q, _, rfl⟩ := Option.map_eq_some_iff.mp h
      exact ⟨_, rfl⟩
    all_goals cases h <;> exact ⟨_, rfl⟩
  · refine ⟨⟨_, rfl⟩, ⟨_, rfl⟩, ?_⟩
    cases o <;> cases h <;> exact ⟨_, rfl⟩
  · cases h

/-! ## The equations -/

namespace Interpretation

variable {V : Type} (I : Interpretation V)

/-- A value that an instruction of the type can have. -/
def HasValue (t : ValueType) (v : V) : Prop :=
  ∃ o vs, v = I t o vs

/-- The equations that simplification rests on: operators on literals give the folded
literal, a literal condition selects, and a part of a value is what it was made of. -/
structure Folds : Prop where
  unary : ∀ {u : UnaryOp} {x c : Op} {t : ValueType} (t' : ValueType), u.fold? x = some c →
    c.literalType? = some t → I t (.unary u) [I t' x.operator []] = I t c.operator []
  binary : ∀ {o : BinaryOp} {x y c : Op} {t : ValueType} (t' t'' : ValueType),
    o.fold? x y = some c → c.literalType? = some t →
    I t (.binary o) [I t' x.operator [], I t'' y.operator []] = I t c.operator []
  selectTrue : ∀ {t : ValueType} {a : V} (t' : ValueType) (b : V), I.HasValue t a →
    I t (.ternary .select) [I t' (.bool true) [], a, b] = a
  selectFalse : ∀ {t : ValueType} {b : V} (t' : ValueType) (a : V), I.HasValue t b →
    I t (.ternary .select) [I t' (.bool false) [], a, b] = b
  extract : ∀ {t t' : ValueType} {parts : List V} {k : Nat} {a : V},
    parts.length = t'.childCount → parts[k]? = some a → I.HasValue t a →
    I t (.extract k) [I t' .construct parts] = a

/-- The equations of folding at whatever type an instruction has. -/
structure FoldsAnywhere : Prop extends I.Folds where
  unaryAt : ∀ {u : UnaryOp} {x c : Op} (t t' : ValueType), u.fold? x = some c →
    I t (.unary u) [I t' x.operator []] = I t c.operator []
  binaryAt : ∀ {o : BinaryOp} {x y c : Op} (t t' t'' : ValueType), o.fold? x y = some c →
    I t (.binary o) [I t' x.operator [], I t'' y.operator []] = I t c.operator []

end Interpretation

/-! ## Reduction -/

/-- The operation that stands for an instruction: its own, the literal that it folds to,
or what stands for the operand that it forwards. -/
inductive Reduces (fast : Bool) (body : Array Instr) : Nat → Op → Prop
  | self {id : Nat} {i : Instr} : body[id]? = some i → Reduces fast body id i.op
  | unary {id : Nat} {t : ValueType} {u : UnaryOp} {a : Nat} {x c : Op} :
    body[id]? = some ⟨t, .unary u a⟩ → Reduces fast body a x → u.fold? x = some c →
    Reduces fast body id c
  | binary {id : Nat} {t : ValueType} {o : BinaryOp} {a b : Nat} {x y c : Op} :
    body[id]? = some ⟨t, .binary o a b⟩ → Reduces fast body a x → Reduces fast body b y →
    o.fold? x y = some c → Reduces fast body id c
  | selectTrue {id : Nat} {t : ValueType} {c a b : Nat} {op : Op} :
    body[id]? = some ⟨t, .ternary .select c a b⟩ → Reduces fast body c (.bool true) →
    hasType body a t → Reduces fast body a op → Reduces fast body id op
  | selectFalse {id : Nat} {t : ValueType} {c a b : Nat} {op : Op} :
    body[id]? = some ⟨t, .ternary .select c a b⟩ → Reduces fast body c (.bool false) →
    hasType body b t → Reduces fast body b op → Reduces fast body id op
  | extract {id : Nat} {t t' : ValueType} {v k a : Nat} {args : List Nat} {op : Op} :
    body[id]? = some ⟨t, .extract v k⟩ → Reduces fast body v (.construct args) →
    hasType body v t' → args.length = t'.childCount → args[k]? = some a →
    hasType body a t → Reduces fast body a op → Reduces fast body id op
  | rightUnit {id : Nat} {t : ValueType} {o : BinaryOp} {a b : Nat} {c x : Float32} {op : Op} :
    fast = true → t.isFloatBased → body[id]? = some ⟨t, .binary o a b⟩ →
    o.rightUnit? = some c → Reduces fast body b (.float x) → x == c → hasType body a t →
    Reduces fast body a op → Reduces fast body id op
  | leftUnit {id : Nat} {t : ValueType} {o : BinaryOp} {a b : Nat} {c x : Float32} {op : Op} :
    fast = true → t.isFloatBased → body[id]? = some ⟨t, .binary o a b⟩ →
    o.leftUnit? = some c → Reduces fast body a (.float x) → x == c → hasType body b t →
    Reduces fast body b op → Reduces fast body id op

/-- An operator on scalar literals has the scalar type of its result. -/
structure FoldsTyped (fast : Bool) (body : Array Instr) : Prop where
  unary : ∀ {id : Nat} {t : ValueType} {u : UnaryOp} {a : Nat} {x c : Op},
    body[id]? = some ⟨t, .unary u a⟩ → Reduces fast body a x → u.fold? x = some c →
    c.literalType? = some t
  binary : ∀ {id : Nat} {t : ValueType} {o : BinaryOp} {a b : Nat} {x y c : Op},
    body[id]? = some ⟨t, .binary o a b⟩ → Reduces fast body a x → Reduces fast body b y →
    o.fold? x y = some c → c.literalType? = some t

/-- The equations of folding for the instructions of a body, at the types that they have. -/
structure Interpretation.FoldsOn {V : Type} (I : Interpretation V) (fast : Bool)
    (body : Array Instr) : Prop where
  unary : ∀ {id : Nat} {t : ValueType} {u : UnaryOp} {a : Nat} {x c : Op} (t' : ValueType),
    body[id]? = some ⟨t, .unary u a⟩ → Reduces fast body a x → u.fold? x = some c →
    I t (.unary u) [I t' x.operator []] = I t c.operator []
  binary : ∀ {id : Nat} {t : ValueType} {o : BinaryOp} {a b : Nat} {x y c : Op}
    (t' t'' : ValueType), body[id]? = some ⟨t, .binary o a b⟩ → Reduces fast body a x →
    Reduces fast body b y → o.fold? x y = some c →
    I t (.binary o) [I t' x.operator [], I t'' y.operator []] = I t c.operator []

theorem FoldsTyped.foldsOn (h : FoldsTyped fast body) (hI : I.Folds) : I.FoldsOn fast body where
  unary t' hi hx hfold := hI.unary t' hfold (h.unary hi hx hfold)
  binary t' t'' hi hx hy hfold := hI.binary t' t'' hfold (h.binary hi hx hy hfold)

theorem Interpretation.FoldsAnywhere.foldsOn (h : I.FoldsAnywhere) (fast : Bool)
    (body : Array Instr) : I.FoldsOn fast body where
  unary t' _ _ hfold := h.unaryAt _ t' hfold
  binary t' t'' _ _ _ hfold := h.binaryAt _ t' t'' hfold

/-- The equations of fast arithmetic for the instructions of a body: neutral operands can be
left out, and division by a literal is multiplication by its reciprocal.  They are asked
for where the body uses them only.  With the folding of signed zeros, asking for them
everywhere would leave no two values apart. -/
structure Interpretation.FastOn {V : Type} (I : Interpretation V) (body : Array Instr) :
    Prop where
  rightUnit : ∀ {id : Nat} {t : ValueType} {o : BinaryOp} {a b : Nat} {c x : Float32} {v w : V},
    body[id]? = some ⟨t, .binary o a b⟩ → t.isFloatBased → o.rightUnit? = some c →
    Reduces true body b (.float x) → x == c → hasType body a t →
    valueAt I body a = some v → valueAt I body b = some w → I t (.binary o) [v, w] = v
  leftUnit : ∀ {id : Nat} {t : ValueType} {o : BinaryOp} {a b : Nat} {c x : Float32} {v w : V},
    body[id]? = some ⟨t, .binary o a b⟩ → t.isFloatBased → o.leftUnit? = some c →
    Reduces true body a (.float x) → x == c → hasType body b t →
    valueAt I body a = some v → valueAt I body b = some w → I t (.binary o) [v, w] = w
  reciprocal : ∀ {id : Nat} {t : ValueType} {a b : Nat} {c : Float32} {v w : V},
    body[id]? = some ⟨t, .binary .div a b⟩ → t.isFloatBased →
    Reduces true body b (.float c) → (c == 0) = false →
    valueAt I body a = some v → valueAt I body b = some w →
    I t (.binary .div) [v, w] = I t (.binary .mul) [v, I .float (.float (1 / c)) []]

/-! ## Types and operations at a position -/

theorem hasType_iff : hasType body id t = true ↔ ∃ i, body[id]? = some i ∧ i.type = t := by
  unfold hasType
  cases body[id]? <;> simp

theorem opAt_eq_some_iff : opAt body id = some op ↔ ∃ t, body[id]? = some ⟨t, op⟩ := by
  unfold opAt
  constructor
  · intro h
    obtain ⟨i, hi, rfl⟩ := Option.map_eq_some_iff.mp h
    exact ⟨i.type, hi⟩
  · rintro ⟨t, ht⟩
    rw [ht, Option.map_some]

theorem lt_size_of_getElem? (h : body[id]? = some i) : id < body.size :=
  (Array.getElem?_eq_some_iff.mp h).1

theorem isFloat_iff {c : Float32} :
    isFloat body id c = true ↔ ∃ x, opAt body id = some (.float x) ∧ (x == c) = true := by
  unfold isFloat opAt
  constructor
  · intro h
    split at h
    · rename_i t x hx
      exact ⟨x, by rw [hx, Option.map_some], h⟩
    · cases h
  · rintro ⟨x, hx, hc⟩
    obtain ⟨⟨t, op⟩, hi, rfl⟩ := Option.map_eq_some_iff.mp hx
    rw [hi]
    exact hc

/-- The value of a literal does not depend on anything but its type. -/
theorem valueAt_literal (hbody : Ordered body) (hx : x.literalType? = some t)
    (hid : opAt body id = some x) : ∃ t', valueAt I body id = some (I t' x.operator []) := by
  obtain ⟨t', hi⟩ := opAt_eq_some_iff.mp hid
  refine ⟨t', ?_⟩
  rw [valueAt_eq hbody hi, Instr.value_leaf (Op.operands_of_literalType? hx)]

/-- An instruction has a value of its type. -/
theorem valueAt_hasValue (hbody : Ordered body) {v : V} (ht : hasType body id t = true)
    (hv : valueAt I body id = some v) : I.HasValue t v := by
  obtain ⟨i, hi, rfl⟩ := hasType_iff.mp ht
  rw [valueAt_eq hbody hi] at hv
  exact ⟨_, _, (Option.some.inj hv).symm⟩

/-! ## What becomes of an instruction -/

/-- What can become of an instruction that follows a body, with what is known of the
operands in each case. -/
inductive Simplifies (body : Array Instr) (fast : Bool) : Instr → Simplification → Prop
  | keep (i : Instr) : Simplifies body fast i .keep
  | unary {t : ValueType} {u : UnaryOp} {a : Nat} {x c : Op} :
    opAt body a = some x → u.fold? x = some c →
    Simplifies body fast ⟨t, .unary u a⟩ (.replace c)
  | binary {t : ValueType} {o : BinaryOp} {a b : Nat} {x y c : Op} :
    opAt body a = some x → opAt body b = some y → o.fold? x y = some c →
    Simplifies body fast ⟨t, .binary o a b⟩ (.replace c)
  | selectTrue {t : ValueType} {c a b : Nat} :
    opAt body c = some (.bool true) → hasType body a t →
    Simplifies body fast ⟨t, .ternary .select c a b⟩ (.alias a)
  | selectFalse {t : ValueType} {c a b : Nat} :
    opAt body c = some (.bool false) → hasType body b t →
    Simplifies body fast ⟨t, .ternary .select c a b⟩ (.alias b)
  | extract {t t' : ValueType} {v k a : Nat} {args : List Nat} :
    body[v]? = some ⟨t', .construct args⟩ → args.length = t'.childCount → args[k]? = some a →
    hasType body a t → Simplifies body fast ⟨t, .extract v k⟩ (.alias a)
  | rightUnit {t : ValueType} {o : BinaryOp} {a b : Nat} {c x : Float32} :
    fast = true → t.isFloatBased → o.rightUnit? = some c → opAt body b = some (.float x) →
    x == c → hasType body a t → Simplifies body fast ⟨t, .binary o a b⟩ (.alias a)
  | leftUnit {t : ValueType} {o : BinaryOp} {a b : Nat} {c x : Float32} :
    fast = true → t.isFloatBased → o.leftUnit? = some c → opAt body a = some (.float x) →
    x == c → hasType body b t → Simplifies body fast ⟨t, .binary o a b⟩ (.alias b)
  | reciprocal {t : ValueType} {a b : Nat} {c : Float32} :
    fast = true → t.isFloatBased → opAt body b = some (.float c) → (c == 0) = false →
    Simplifies body fast ⟨t, .binary .div a b⟩ (.scale a (1 / c))

theorem fastSimplification_simplifies (body : Array Instr) (ht : t.isFloatBased = true)
    (o : BinaryOp) (a b : Nat) :
    Simplifies body true ⟨t, .binary o a b⟩ (fastSimplification body t o a b) := by
  have hright : ∀ c, o.rightUnit? = some c → (isFloat body b c && hasType body a t) = true →
      Simplifies body true ⟨t, .binary o a b⟩ (.alias a) := by
    intro c hc h
    rw [Bool.and_eq_true] at h
    obtain ⟨x, hx, hxc⟩ := isFloat_iff.mp h.1
    exact .rightUnit rfl ht hc hx hxc h.2
  have hleft : ∀ c, o.leftUnit? = some c → (isFloat body a c && hasType body b t) = true →
      Simplifies body true ⟨t, .binary o a b⟩ (.alias b) := by
    intro c hc h
    rw [Bool.and_eq_true] at h
    obtain ⟨x, hx, hxc⟩ := isFloat_iff.mp h.1
    exact .leftUnit rfl ht hc hx hxc h.2
  unfold fastSimplification
  split
  · split
    · exact hright 1 rfl ‹_›
    · split
      · exact hleft 1 rfl ‹_›
      · exact .keep _
  · split
    · exact hright 0 rfl ‹_›
    · split
      · exact hleft 0 rfl ‹_›
      · exact .keep _
  · split
    · exact hright 0 rfl ‹_›
    · exact .keep _
  · split
    · split
      · exact .keep _
      · rename_i hc hzero
        exact .reciprocal rfl ht hc (by simpa using hzero)
    · exact .keep _
  · exact .keep _

theorem binarySimplification_simplifies (body : Array Instr) (fast : Bool) (t : ValueType)
    (o : BinaryOp) (a b : Nat) :
    Simplifies body fast ⟨t, .binary o a b⟩ (binarySimplification body fast t o a b) := by
  unfold binarySimplification
  split
  · rename_i x y hx hy
    split
    · rename_i c hc
      exact .binary hx hy hc
    · split
      · rename_i hfast
        rw [Bool.and_eq_true] at hfast
        rw [hfast.1]
        exact fastSimplification_simplifies body hfast.2 o a b
      · exact .keep _
  · exact .keep _

/-- Every simplification is one of the cases. -/
theorem Instr.simplifies (body : Array Instr) (fast : Bool) (i : Instr) :
    Simplifies body fast i (i.simplification body fast) := by
  obtain ⟨t, op⟩ := i
  unfold Instr.simplification
  dsimp only
  split
  · split
    · rename_i u a c hc
      obtain ⟨x, hx, hfold⟩ := Option.bind_eq_some_iff.mp hc
      exact .unary hx hfold
    · exact .keep _
  · exact binarySimplification_simplifies body fast t _ _ _
  · split
    · split
      · exact .selectTrue ‹_› ‹_›
      · exact .keep _
    · split
      · exact .selectFalse ‹_› ‹_›
      · exact .keep _
    · exact .keep _
  · split
    · rename_i args hv
      split
      · rename_i a ha
        split
        · rename_i h
          exact .extract hv h.1 ha h.2
        · exact .keep _
      · exact .keep _
    · exact .keep _
  · exact .keep _

/-! ## Putting instructions into a body -/

/-- The outcome of putting an instruction into a body: the position and the new body. -/
structure Placed (body : Array Instr) (i : Instr) (out : Nat × Array Instr) : Prop where
  grows : Extends body out.2
  found : out.2[out.1]? = some i
  ordered : Ordered body → (∀ a ∈ i.op.operands, a < body.size) → Ordered out.2

theorem placed_push (body : Array Instr) (i : Instr) : Placed body i (body.size, body.push i) where
  grows := extends_push body i
  found := Array.getElem?_push_size
  ordered := Ordered.push

theorem emit_placed (merge : Bool) (body : Array Instr) (i : Instr) :
    Placed body i (Simplified.emit merge body i) := by
  unfold Simplified.emit
  split
  · split
    · rename_i id hid
      obtain ⟨hlt, hsame, _⟩ := Array.findIdx?_eq_some_iff_getElem.mp hid
      refine ⟨Extends.refl body, ?_, fun h _ => h⟩
      rw [Array.getElem?_eq_getElem hlt, of_decide_eq_true hsame]
    · exact placed_push body i
  · exact placed_push body i

/-- What was put into a body has the value of the instruction. -/
theorem Placed.value {V : Type} {I : Interpretation V} {body : Array Instr} {i : Instr}
    {out : Nat × Array Instr} (h : Placed body i out) (hbody : Ordered body)
    (hi : ∀ a ∈ i.op.operands, a < body.size) : valueAt I out.2 out.1 = some (i.value I body) := by
  rw [valueAt_eq (h.ordered hbody hi) h.found]
  rw [Instr.value_congr fun a ha => valueAt_of_extends h.grows (hi a ha)]

/-- What stands in for an instruction has its type, and the body stays ordered. -/
structure StandsIn (body : Array Instr) (i : Instr) (out : Nat × Array Instr) : Prop where
  grows : Extends body out.2
  type : hasType out.2 out.1 i.type = true
  ordered : Ordered out.2

theorem Placed.standsIn {j : Instr} {out : Nat × Array Instr} (h : Placed body j out)
    (htype : j.type = i.type) (hbody : Ordered body) (hj : ∀ a ∈ j.op.operands, a < body.size) :
    StandsIn body i out where
  grows := h.grows
  type := hasType_iff.mpr ⟨j, h.found, htype⟩
  ordered := h.ordered hbody hj

/-- The two instructions of a multiplication by a reciprocal. -/
theorem apply_scale (merge : Bool) (body : Array Instr) (i : Instr) (a : Nat) (c : Float32) :
    ∃ k, Placed body ⟨.float, .float c⟩ k ∧
      Placed k.2 ⟨i.type, .binary .mul a k.1⟩ (Simplified.apply merge body i (.scale a c)) :=
  ⟨_, emit_placed merge body ⟨.float, .float c⟩, emit_placed merge _ _⟩

theorem Placed.scale_operands {a : Nat} {c : Float32} {k : Nat × Array Instr}
    (h : Placed body ⟨.float, .float c⟩ k) (ha : a < body.size) :
    ∀ b ∈ (Instr.mk t (.binary .mul a k.1)).op.operands, b < k.2.size := by
  intro b hb
  have hk : k.1 < k.2.size := lt_size_of_getElem? h.found
  have ha : a < k.2.size := Nat.lt_of_lt_of_le ha h.grows.size_le
  simp only [Op.operands, mem_cons, not_mem_nil, or_false] at hb
  rcases hb with rfl | rfl
  · exact ha
  · exact hk

theorem apply_standsIn (merge : Bool) (hbody : Ordered body)
    (hi : ∀ a ∈ i.op.operands, a < body.size) (h : Simplifies body fast i c) :
    StandsIn body i (Simplified.apply merge body i c) := by
  have halias : ∀ {a t}, hasType body a t = true → t = i.type → StandsIn body i (a, body) :=
    fun ha ht => ⟨Extends.refl body, ht ▸ ha, hbody⟩
  have hliteral : ∀ {x : Op}, (∃ t, x.literalType? = some t) →
      StandsIn body i (Simplified.emit merge body ⟨i.type, x⟩) := by
    rintro x ⟨t, ht⟩
    refine (emit_placed merge body ⟨i.type, x⟩).standsIn rfl hbody ?_
    simp [Op.operands_of_literalType? ht]
  cases h with
  | keep => exact (emit_placed merge body i).standsIn rfl hbody hi
  | unary _ hfold => exact hliteral (UnaryOp.fold?_literal hfold).2
  | binary _ _ hfold => exact hliteral (BinaryOp.fold?_literal hfold).2.2
  | selectTrue _ ha => exact halias ha rfl
  | selectFalse _ hb => exact halias hb rfl
  | extract _ _ _ ha => exact halias ha rfl
  | rightUnit _ _ _ _ _ ha => exact halias ha rfl
  | leftUnit _ _ _ _ _ hb => exact halias hb rfl
  | @reciprocal t a b c _ _ _ _ =>
    obtain ⟨k, hk, hout⟩ := apply_scale merge body ⟨t, .binary .div a b⟩ a (1 / c)
    have ha : a < body.size := hi a (by simp [Op.operands])
    have hmul := hout.standsIn (i := ⟨t, .binary .div a b⟩) rfl
      (hk.ordered hbody (by simp [Op.operands])) (hk.scale_operands ha)
    exact ⟨hk.grows.trans hmul.grows, hmul.type, hmul.ordered⟩

/-! ## The instructions of the old body -/

/-- An instruction reduces to an operation on earlier instructions. -/
theorem Reduces.operands_lt (hbody : Ordered body) (h : Reduces fast body id op) :
    ∀ a ∈ op.operands, a < id := by
  have hforward : ∀ {id b : Nat} {i : Instr} {op : Op}, body[id]? = some i →
      b ∈ i.op.operands → (∀ a ∈ op.operands, a < b) → ∀ a ∈ op.operands, a < id :=
    fun hi hb hop a ha => Nat.lt_trans (hop a ha) (hbody _ _ hi _ hb)
  have hliteral : ∀ {id : Nat} {op : Op}, (∃ t, op.literalType? = some t) →
      ∀ a ∈ op.operands, a < id := by
    rintro id op ⟨t, ht⟩ a ha
    rw [Op.operands_of_literalType? ht] at ha
    cases ha
  induction h with
  | self hi => exact hbody _ _ hi
  | unary _ _ hfold _ => exact hliteral (UnaryOp.fold?_literal hfold).2
  | binary _ _ _ hfold _ _ => exact hliteral (BinaryOp.fold?_literal hfold).2.2
  | selectTrue hi _ _ _ _ ih => exact hforward hi (by simp [Op.operands]) ih
  | selectFalse hi _ _ _ _ ih => exact hforward hi (by simp [Op.operands]) ih
  | extract hi _ _ _ ha _ _ ihv ih =>
    -- the part is an operand of what stands for the value, not of the instruction
    have hpart := ihv _ (mem_of_getElem? ha)
    exact hforward hi (mem_singleton_self _) fun a ha => Nat.lt_trans (ih a ha) hpart
  | rightUnit _ _ hi _ _ _ _ _ _ ih => exact hforward hi (by simp [Op.operands]) ih
  | leftUnit _ _ hi _ _ _ _ _ _ ih => exact hforward hi (by simp [Op.operands]) ih

/-- An instruction without operands reduces to itself only. -/
theorem Reduces.eq_of_leaf (hi : body[id]? = some i) (hleaf : i.op.operands = [])
    (h : Reduces fast body id op) : op = i.op := by
  have hnone : ∀ {j : Instr} {a : Nat} {as : List Nat}, body[id]? = some j →
      j.op.operands = a :: as → False := by
    intro j a as hj hops
    rw [hi] at hj
    cases hj
    rw [hleaf] at hops
    cases hops
  cases h with
  | self hj =>
    rw [hi] at hj
    cases hj
    rfl
  | unary hj | binary hj | selectTrue hj | selectFalse hj | extract hj => exact (hnone hj rfl).elim
  | rightUnit _ _ hj | leftUnit _ _ hj => exact (hnone hj rfl).elim

namespace Instr

variable {i : Instr} {f : Nat → Nat} {t : ValueType}

-- An instruction of an ordered body that becomes an operator on renamed operands is that
-- operator on earlier ones.

theorem mapOperands_eq_unary {u : UnaryOp} (hbody : Ordered body) (hi : body[id]? = some i)
    (h : i.mapOperands f = ⟨t, .unary u a'⟩) : ∃ a < id, i = ⟨t, .unary u a⟩ ∧ a' = f a := by
  have hlt := hbody id i hi
  obtain ⟨t, op⟩ := i
  cases op <;> simp_all [mapOperands, Op.mapOperands, Op.operands]

theorem mapOperands_eq_binary {o : BinaryOp} {b' : Nat} (hbody : Ordered body)
    (hi : body[id]? = some i) (h : i.mapOperands f = ⟨t, .binary o a' b'⟩) :
    ∃ a < id, ∃ b < id, i = ⟨t, .binary o a b⟩ ∧ a' = f a ∧ b' = f b := by
  have hlt := hbody id i hi
  obtain ⟨t, op⟩ := i
  cases op <;> simp_all [mapOperands, Op.mapOperands, Op.operands]

theorem mapOperands_eq_ternary {o : TernaryOp} {b' c' : Nat} (hbody : Ordered body)
    (hi : body[id]? = some i) (h : i.mapOperands f = ⟨t, .ternary o a' b' c'⟩) :
    ∃ a < id, ∃ b < id, ∃ c < id,
      i = ⟨t, .ternary o a b c⟩ ∧ a' = f a ∧ b' = f b ∧ c' = f c := by
  have hlt := hbody id i hi
  obtain ⟨t, op⟩ := i
  cases op <;> simp_all [mapOperands, Op.mapOperands, Op.operands]

theorem mapOperands_eq_extract {v' k : Nat} (hbody : Ordered body) (hi : body[id]? = some i)
    (h : i.mapOperands f = ⟨t, .extract v' k⟩) : ∃ v < id, i = ⟨t, .extract v k⟩ ∧ v' = f v := by
  have hlt := hbody id i hi
  obtain ⟨t, op⟩ := i
  cases op <;> simp_all [mapOperands, Op.mapOperands, Op.operands]

end Instr

namespace Simplified

theorem rename_push_of_lt {s : Simplified} (h : id < s.moved.size) (body : Array Instr) (m : Nat) :
    rename ⟨body, s.moved.push m⟩ id = s.rename id := by
  simp [rename, Array.getD_eq_getD_getElem?, Array.getElem?_push_lt h, h]

theorem step_eq (merge fast : Bool) (s : Simplified) (i : Instr) :
    s.step merge fast i =
      ⟨(apply merge s.body (i.mapOperands s.rename)
          ((i.mapOperands s.rename).simplification s.body fast)).2,
        s.moved.push (apply merge s.body (i.mapOperands s.rename)
          ((i.mapOperands s.rename).simplification s.body fast)).1⟩ :=
  rfl

theorem rename_push_of_eq {s : Simplified} {n : Nat} (h : s.moved.size = n)
    (body : Array Instr) (m : Nat) : rename ⟨body, s.moved.push m⟩ n = m := by
  simp [rename, Array.getD_eq_getD_getElem?, ← h]

end Simplified

/-- The invariant of the pass after `n` instructions: the body is ordered, every old
instruction has moved to one of its type, and what is transparent there is what the old
instruction reduces to. -/
structure Tracks (fast : Bool) (old : Array Instr) (s : Simplified) (n : Nat) : Prop where
  moved : s.moved.size = n
  ordered : Ordered s.body
  type : ∀ {id : Nat} {i : Instr}, id < n → old[id]? = some i →
    hasType s.body (s.rename id) i.type = true
  known : ∀ {id : Nat} {op : Op}, id < n → opAt s.body (s.rename id) = some op →
    op.isTransparent = true → ∃ op', Reduces fast old id op' ∧ op = op'.mapOperands s.rename

namespace Tracks

variable {fast : Bool} {old : Array Instr} {s : Simplified} {n : Nat}

theorem rename_lt (h : Tracks fast old s n) (hn : n ≤ old.size) (hid : id < n) :
    s.rename id < s.body.size := by
  have hi := Array.getElem?_eq_getElem (Nat.lt_of_lt_of_le hid hn)
  obtain ⟨j, hj, _⟩ := hasType_iff.mp (h.type hid hi)
  exact lt_size_of_getElem? hj

theorem operands_lt (h : Tracks fast old s n) (hold : Ordered old) (hi : old[n]? = some i) :
    ∀ a ∈ (i.mapOperands s.rename).op.operands, a < s.body.size := by
  intro a ha
  simp only [Instr.mapOperands, Op.operands_mapOperands, mem_map] at ha
  obtain ⟨b, hb, rfl⟩ := ha
  exact h.rename_lt (Nat.le_of_lt (lt_size_of_getElem? hi)) (hold n i hi b hb)

/-- A literal that an instruction moved to is what it reduces to. -/
theorem reduces_literal (h : Tracks fast old s n) (hid : id < n) (hx : ∃ t, x.literalType? = some t)
    (hop : opAt s.body (s.rename id) = some x) : Reduces fast old id x := by
  obtain ⟨t, ht⟩ := hx
  obtain ⟨op, hred, heq⟩ := h.known hid hop (Op.isTransparent_of_literalType? ht)
  rwa [Op.eq_of_mapOperands_literal ht heq] at hred

/-- Types do not change. -/
theorem hasType_old (h : Tracks fast old s n) (hn : n ≤ old.size) (hid : id < n)
    (ht : hasType s.body (s.rename id) t = true) : hasType old id t = true := by
  have hi := Array.getElem?_eq_getElem (Nat.lt_of_lt_of_le hid hn)
  obtain ⟨j, hj, rfl⟩ := hasType_iff.mp ht
  obtain ⟨j', hj', htype⟩ := hasType_iff.mp (h.type hid hi)
  rw [hj] at hj'
  cases hj'
  exact hasType_iff.mpr ⟨_, hi, htype.symm⟩

/-- What an instruction is replaced by is a literal that it reduces to. -/
theorem reduces_replaced (h : Tracks fast old s n) (hold : Ordered old) (hi : old[n]? = some i)
    {c : Op} (hc : Simplifies s.body fast (i.mapOperands s.rename) (.replace c)) :
    (∃ t, c.literalType? = some t) ∧ Reduces fast old n c := by
  generalize hj : i.mapOperands s.rename = j at hc
  cases hc with
  | unary hx hfold =>
    obtain ⟨a, ha, rfl, rfl⟩ := Instr.mapOperands_eq_unary hold hi hj
    refine ⟨(UnaryOp.fold?_literal hfold).2, ?_⟩
    exact .unary hi (h.reduces_literal ha (UnaryOp.fold?_literal hfold).1 hx) hfold
  | binary hx hy hfold =>
    obtain ⟨a, ha, b, hb, rfl, rfl, rfl⟩ := Instr.mapOperands_eq_binary hold hi hj
    refine ⟨(BinaryOp.fold?_literal hfold).2.2, ?_⟩
    exact .binary hi (h.reduces_literal ha (BinaryOp.fold?_literal hfold).1 hx)
      (h.reduces_literal hb (BinaryOp.fold?_literal hfold).2.1 hy) hfold

/-- What an instruction is forwarded to is an earlier instruction, and stands for it. -/
theorem reduces_forwarded (h : Tracks fast old s n) (hold : Ordered old) (hi : old[n]? = some i)
    {m : Nat} (hc : Simplifies s.body fast (i.mapOperands s.rename) (.alias m)) :
    ∃ a, a < n ∧ m = s.rename a ∧ ∀ op, Reduces fast old a op → Reduces fast old n op := by
  have hn : n ≤ old.size := Nat.le_of_lt (lt_size_of_getElem? hi)
  generalize hj : i.mapOperands s.rename = j at hc
  cases hc with
  | selectTrue hcond ht =>
    obtain ⟨c, hc, a, ha, b, hb, rfl, rfl, rfl, rfl⟩ := Instr.mapOperands_eq_ternary hold hi hj
    exact ⟨a, ha, rfl, fun op hop => .selectTrue hi (h.reduces_literal hc ⟨_, rfl⟩ hcond)
      (h.hasType_old hn ha ht) hop⟩
  | selectFalse hcond ht =>
    obtain ⟨c, hc, a, ha, b, hb, rfl, rfl, rfl, rfl⟩ := Instr.mapOperands_eq_ternary hold hi hj
    exact ⟨b, hb, rfl, fun op hop => .selectFalse hi (h.reduces_literal hc ⟨_, rfl⟩ hcond)
      (h.hasType_old hn hb ht) hop⟩
  | @extract t t' v' k m args hv hlen hm ht =>
    obtain ⟨v, hvn, rfl, rfl⟩ := Instr.mapOperands_eq_extract hold hi hj
    have hop : opAt s.body (s.rename v) = some (.construct args) := opAt_eq_some_iff.mpr ⟨_, hv⟩
    obtain ⟨op', hred, heq⟩ := h.known hvn hop rfl
    obtain ⟨parts, rfl, rfl⟩ := Op.eq_of_mapOperands_construct heq
    rw [getElem?_map] at hm
    obtain ⟨a, ha, rfl⟩ := Option.map_eq_some_iff.mp hm
    have hav : a < v := hred.operands_lt hold a (mem_of_getElem? ha)
    have han : a < n := Nat.lt_trans hav hvn
    have htv : hasType s.body (s.rename v) t' = true := hasType_iff.mpr ⟨_, hv, rfl⟩
    refine ⟨a, han, rfl, fun op hop => .extract hi hred (h.hasType_old hn hvn htv) ?_ ha
      (h.hasType_old hn han ht) hop⟩
    rwa [length_map] at hlen
  | rightUnit hfast hfloat hunit hx hxc ht =>
    obtain ⟨a, ha, b, hb, rfl, rfl, rfl⟩ := Instr.mapOperands_eq_binary hold hi hj
    exact ⟨a, ha, rfl, fun op hop => .rightUnit hfast hfloat hi hunit
      (h.reduces_literal hb ⟨_, rfl⟩ hx) hxc (h.hasType_old hn ha ht) hop⟩
  | leftUnit hfast hfloat hunit hx hxc ht =>
    obtain ⟨a, ha, b, hb, rfl, rfl, rfl⟩ := Instr.mapOperands_eq_binary hold hi hj
    exact ⟨b, hb, rfl, fun op hop => .leftUnit hfast hfloat hi hunit
      (h.reduces_literal ha ⟨_, rfl⟩ hx) hxc (h.hasType_old hn hb ht) hop⟩

/-- What is transparent where an instruction moved to is what it reduces to. -/
theorem known_moved (h : Tracks fast old s n) (hold : Ordered old) (merge : Bool)
    (hi : old[n]? = some i) (hc : Simplifies s.body fast (i.mapOperands s.rename) c)
    (hop : opAt (Simplified.apply merge s.body (i.mapOperands s.rename) c).2
      (Simplified.apply merge s.body (i.mapOperands s.rename) c).1 = some op)
    (htrans : op.isTransparent = true) :
    ∃ op', Reduces fast old n op' ∧ op = op'.mapOperands s.rename := by
  have hemit : ∀ {j : Instr} {body : Array Instr},
      opAt (Simplified.emit merge body j).2 (Simplified.emit merge body j).1 = some op →
      op = j.op := by
    intro j body hop
    obtain ⟨t, ht⟩ := opAt_eq_some_iff.mp hop
    rw [(emit_placed merge body j).found] at ht
    cases ht
    rfl
  cases c with
  | keep => exact ⟨i.op, .self hi, hemit hop⟩
  | «alias» m =>
    obtain ⟨a, ha, rfl, hred⟩ := h.reduces_forwarded hold hi hc
    obtain ⟨op', hop', rfl⟩ := h.known ha hop htrans
    exact ⟨op', hred op' hop', rfl⟩
  | replace x =>
    obtain ⟨⟨t, ht⟩, hred⟩ := h.reduces_replaced hold hi hc
    obtain rfl : op = x := hemit hop
    exact ⟨op, hred, (Op.mapOperands_of_literalType? ht _).symm⟩
  | scale a k =>
    rw [show op = .binary .mul a _ from hemit hop] at htrans
    cases htrans

/-- Recording where the next instruction moved to keeps the invariant. -/
theorem push (h : Tracks fast old s n) (hold : Ordered old) {i j : Instr}
    (hi : old[n]? = some i) {out : Nat × Array Instr} (hout : StandsIn s.body j out)
    (htype : j.type = i.type)
    (hknown : ∀ {op : Op}, opAt out.2 out.1 = some op → op.isTransparent = true →
      ∃ op', Reduces fast old n op' ∧ op = op'.mapOperands s.rename) :
    Tracks fast old ⟨out.2, s.moved.push out.1⟩ (n + 1) := by
  have hn : n ≤ old.size := Nat.le_of_lt (lt_size_of_getElem? hi)
  have hlt : ∀ {id}, id < n → Simplified.rename ⟨out.2, s.moved.push out.1⟩ id = s.rename id :=
    fun hid => Simplified.rename_push_of_lt (h.moved.symm ▸ hid) _ _
  have hself : Simplified.rename ⟨out.2, s.moved.push out.1⟩ n = out.1 :=
    Simplified.rename_push_of_eq h.moved _ _
  have hmap : ∀ {id op}, id ≤ n → Reduces fast old id op →
      op.mapOperands s.rename = op.mapOperands (Simplified.rename ⟨out.2, s.moved.push out.1⟩) :=
    fun hid hred => Op.mapOperands_congr fun a ha =>
      (hlt (Nat.lt_of_lt_of_le (hred.operands_lt hold a ha) hid)).symm
  refine ⟨?_, hout.ordered, ?_, ?_⟩
  · rw [Array.size_push, h.moved]
  · intro id k hid hk
    rcases Nat.lt_succ_iff_lt_or_eq.mp hid with hid | rfl
    · rw [hlt hid]
      obtain ⟨k', hk', hsame⟩ := hasType_iff.mp (h.type hid hk)
      exact hasType_iff.mpr ⟨k', hout.grows _ _ hk', hsame⟩
    · rw [hself]
      rw [hi] at hk
      cases hk
      exact htype ▸ hout.type
  · intro id op hid hop htrans
    rcases Nat.lt_succ_iff_lt_or_eq.mp hid with hid | rfl
    · rw [hlt hid] at hop
      have hsame : opAt s.body (s.rename id) = some op := by
        have hin := Array.getElem?_eq_getElem (h.rename_lt hn hid)
        unfold opAt at hop ⊢
        rwa [hin, ← hout.grows _ _ hin]
      obtain ⟨op', hred, rfl⟩ := h.known hid hsame htrans
      exact ⟨op', hred, hmap (Nat.le_of_lt hid) hred⟩
    · rw [hself] at hop
      obtain ⟨op', hred, rfl⟩ := hknown hop htrans
      exact ⟨op', hred, hmap (Nat.le_refl _) hred⟩

/-- One instruction keeps the invariant. -/
theorem step (h : Tracks fast old s n) (hold : Ordered old) (merge : Bool) {i : Instr}
    (hi : old[n]? = some i) : Tracks fast old (s.step merge fast i) (n + 1) := by
  have hc := (i.mapOperands s.rename).simplifies s.body fast
  rw [Simplified.step_eq]
  exact h.push hold hi (apply_standsIn merge h.ordered (h.operands_lt hold hi) hc) rfl
    (h.known_moved hold merge hi hc)

end Tracks

/-! ## Values -/

section

variable {V : Type} {I : Interpretation V}

/-- The value of what becomes of an instruction. -/
def Simplification.value (I : Interpretation V) (body : Array Instr) (i : Instr) :
    Simplification → Option V
  | .keep => some (i.value I body)
  | .alias id => valueAt I body id
  | .replace op => some (I i.type op.operator [])
  | .scale a c => (valueAt I body a).map fun v =>
    I i.type (.binary .mul) [v, I .float (.float c) []]

/-- What is put in the place of an instruction has the value of the simplification. -/
theorem apply_value (merge : Bool) (hbody : Ordered body) (hi : ∀ a ∈ i.op.operands, a < body.size)
    (h : Simplifies body fast i c) :
    valueAt I (Simplified.apply merge body i c).2 (Simplified.apply merge body i c).1 =
      c.value I body i := by
  have hliteral : ∀ {x : Op}, (∃ t, x.literalType? = some t) →
      valueAt I (Simplified.emit merge body ⟨i.type, x⟩).2
        (Simplified.emit merge body ⟨i.type, x⟩).1 = some (I i.type x.operator []) := by
    rintro x ⟨t, ht⟩
    have hnone := Op.operands_of_literalType? ht
    rw [(emit_placed merge body ⟨i.type, x⟩).value hbody (by simp [hnone])]
    rw [Instr.value_leaf hnone]
  cases h with
  | keep => exact (emit_placed merge body i).value hbody hi
  | unary _ hfold => exact hliteral (UnaryOp.fold?_literal hfold).2
  | binary _ _ hfold => exact hliteral (BinaryOp.fold?_literal hfold).2.2
  | selectTrue | selectFalse | extract | rightUnit | leftUnit => rfl
  | @reciprocal t a b c _ _ _ _ =>
    obtain ⟨k, hk, hout⟩ := apply_scale merge body ⟨t, .binary .div a b⟩ a (1 / c)
    have ha : a < body.size := hi a (by simp [Op.operands])
    have hleaf : (Op.float (1 / c)).operands = [] := rfl
    have hk' := hk.value (I := I) hbody (by simp [hleaf])
    obtain ⟨v, hv⟩ := exists_valueAt (I := I) ha
    rw [hout.value (hk.ordered hbody (by simp [hleaf])) (hk.scale_operands ha)]
    rw [Instr.value_binary ((valueAt_of_extends hk.grows ha).trans hv) hk']
    rw [Instr.value_leaf hleaf, Simplification.value, hv]
    rfl

namespace Tracks

variable {fast : Bool} {old : Array Instr} {s : Simplified} {n : Nat}

/-- Under the equations, a simplification has the value of the instruction. -/
theorem simplification_value (h : Tracks fast old s n) (hold : Ordered old)
    (hvalues : ∀ id < n, valueAt I s.body (s.rename id) = valueAt I old id)
    (hfolds : I.FoldsOn fast old) (hI : I.Folds) (hfast : fast = true → I.FastOn old)
    (hi : old[n]? = some i) (hc : Simplifies s.body fast (i.mapOperands s.rename) c) :
    c.value I s.body (i.mapOperands s.rename) =
      some ((i.mapOperands s.rename).value I s.body) := by
  have hn : n ≤ old.size := Nat.le_of_lt (lt_size_of_getElem? hi)
  have hexists : ∀ {a}, a < n → ∃ v, valueAt I s.body (s.rename a) = some v :=
    fun ha => exists_valueAt (h.rename_lt hn ha)
  generalize hj : i.mapOperands s.rename = j at hc ⊢
  cases hc with
  | keep => rfl
  | unary hx hfold =>
    obtain ⟨a, ha, rfl, rfl⟩ := Instr.mapOperands_eq_unary hold hi hj
    obtain ⟨_, hx'⟩ := (UnaryOp.fold?_literal hfold).1
    obtain ⟨t', hv⟩ := valueAt_literal (I := I) h.ordered hx' hx
    rw [Instr.value_unary hv, hfolds.unary t' hi (h.reduces_literal ha ⟨_, hx'⟩ hx) hfold]
    rfl
  | binary hx hy hfold =>
    obtain ⟨a, ha, b, hb, rfl, rfl, rfl⟩ := Instr.mapOperands_eq_binary hold hi hj
    obtain ⟨⟨_, hx'⟩, ⟨_, hy'⟩, _⟩ := BinaryOp.fold?_literal hfold
    obtain ⟨t', hv⟩ := valueAt_literal (I := I) h.ordered hx' hx
    obtain ⟨t'', hw⟩ := valueAt_literal (I := I) h.ordered hy' hy
    rw [Instr.value_binary hv hw, hfolds.binary t' t'' hi (h.reduces_literal ha ⟨_, hx'⟩ hx)
      (h.reduces_literal hb ⟨_, hy'⟩ hy) hfold]
    rfl
  | selectTrue hcond ht =>
    obtain ⟨c, -, a, ha, b, hb, rfl, rfl, rfl, rfl⟩ := Instr.mapOperands_eq_ternary hold hi hj
    obtain ⟨t', hv⟩ := valueAt_literal (I := I) h.ordered (t := .bool) rfl hcond
    obtain ⟨w, hw⟩ := hexists ha
    obtain ⟨z, hz⟩ := hexists hb
    rw [Instr.value_ternary hv hw hz]
    exact hw.trans (congrArg some
      (hI.selectTrue t' z (valueAt_hasValue h.ordered ht hw)).symm)
  | selectFalse hcond ht =>
    obtain ⟨c, -, a, ha, b, hb, rfl, rfl, rfl, rfl⟩ := Instr.mapOperands_eq_ternary hold hi hj
    obtain ⟨t', hv⟩ := valueAt_literal (I := I) h.ordered (t := .bool) rfl hcond
    obtain ⟨w, hw⟩ := hexists ha
    obtain ⟨z, hz⟩ := hexists hb
    rw [Instr.value_ternary hv hw hz]
    exact hz.trans (congrArg some
      (hI.selectFalse t' w (valueAt_hasValue h.ordered ht hz)).symm)
  | @extract t t' v k a args hv hlen ha ht =>
    have hargs : ∀ b ∈ args, b < s.body.size := fun b hb =>
      Nat.lt_trans (h.ordered v _ hv b hb) (lt_size_of_getElem? hv)
    have hparts := map_valueAt (I := I) hargs
    obtain ⟨w, hw⟩ := exists_valueAt (I := I) (hargs a (mem_of_getElem? ha))
    have hlen' : (args.filterMap (valueAt I s.body)).length = t'.childCount := by
      simpa [hlen] using (congrArg List.length hparts).symm
    have hw' : (args.filterMap (valueAt I s.body))[k]? = some w := by
      simpa [ha, hw] using (congrArg (·[k]?) hparts).symm
    rw [Instr.value_extract (valueAt_eq h.ordered hv)]
    exact hw.trans (congrArg some
      (hI.extract hlen' hw' (valueAt_hasValue h.ordered ht hw)).symm)
  | rightUnit hfast' hfloat hunit hx hxc ht =>
    obtain ⟨a, ha, b, hb, rfl, rfl, rfl⟩ := Instr.mapOperands_eq_binary hold hi hj
    obtain ⟨v, hv⟩ := hexists ha
    obtain ⟨w, hw⟩ := hexists hb
    subst hfast'
    have hunit := (hfast rfl).rightUnit hi hfloat hunit (h.reduces_literal hb ⟨_, rfl⟩ hx) hxc
      (h.hasType_old hn ha ht) (hvalues a ha ▸ hv) (hvalues b hb ▸ hw)
    rw [Instr.value_binary hv hw, hunit]
    exact hv
  | leftUnit hfast' hfloat hunit hx hxc ht =>
    obtain ⟨a, ha, b, hb, rfl, rfl, rfl⟩ := Instr.mapOperands_eq_binary hold hi hj
    obtain ⟨v, hv⟩ := hexists ha
    obtain ⟨w, hw⟩ := hexists hb
    subst hfast'
    have hunit := (hfast rfl).leftUnit hi hfloat hunit (h.reduces_literal ha ⟨_, rfl⟩ hx) hxc
      (h.hasType_old hn hb ht) (hvalues a ha ▸ hv) (hvalues b hb ▸ hw)
    rw [Instr.value_binary hv hw, hunit]
    exact hw
  | reciprocal hfast' hfloat hx hzero =>
    obtain ⟨a, ha, b, hb, rfl, rfl, rfl⟩ := Instr.mapOperands_eq_binary hold hi hj
    obtain ⟨v, hv⟩ := hexists ha
    obtain ⟨w, hw⟩ := hexists hb
    subst hfast'
    have hdiv := (hfast rfl).reciprocal hi hfloat (h.reduces_literal hb ⟨_, rfl⟩ hx) hzero
      (hvalues a ha ▸ hv) (hvalues b hb ▸ hw)
    rw [Instr.value_binary hv hw, hdiv, Simplification.value, hv]
    rfl

/-- One instruction keeps the values. -/
theorem step_value (h : Tracks fast old s n) (hold : Ordered old)
    (hvalues : ∀ id < n, valueAt I s.body (s.rename id) = valueAt I old id)
    (hfolds : I.FoldsOn fast old) (hI : I.Folds) (hfast : fast = true → I.FastOn old) (merge : Bool)
    (hi : old[n]? = some i) :
    ∀ id < n + 1, valueAt I (s.step merge fast i).body ((s.step merge fast i).rename id) =
      valueAt I old id := by
  intro id hid
  have hops := h.operands_lt hold hi
  have hc := (i.mapOperands s.rename).simplifies s.body fast
  rw [Simplified.step_eq]
  rcases Nat.lt_succ_iff_lt_or_eq.mp hid with hid | rfl
  · rw [Simplified.rename_push_of_lt (h.moved.symm ▸ hid)]
    rw [valueAt_of_extends (apply_standsIn merge h.ordered hops hc).grows
      (h.rename_lt (Nat.le_of_lt (lt_size_of_getElem? hi)) hid)]
    exact hvalues id hid
  · rw [Simplified.rename_push_of_eq h.moved, apply_value merge h.ordered hops hc]
    rw [h.simplification_value hold hvalues hfolds hI hfast hi hc, valueAt_eq hold hi]
    rw [Instr.value_mapOperands fun a ha => hvalues a (hold id i hi a ha)]

end Tracks

variable {old : Array Instr}

/-! ## The whole pass -/

theorem tracks_empty (fast : Bool) (old : Array Instr) : Tracks fast old .empty 0 where
  moved := rfl
  ordered := ordered_empty
  type := fun h => absurd h (Nat.not_lt_zero _)
  known := fun h => absurd h (Nat.not_lt_zero _)

/-- The invariant holds after the pass, and with it what the steps keep besides. -/
theorem tracks_induction (merge : Bool) (hold : Ordered old)
    {motive : Nat → Simplified → Prop} (hempty : motive 0 .empty)
    (hstep : ∀ n s i, Tracks fast old s n → old[n]? = some i → motive n s →
      motive (n + 1) (s.step merge fast i)) :
    Tracks fast old (old.foldl (Simplified.step merge fast) .empty) old.size ∧
      motive old.size (old.foldl (Simplified.step merge fast) .empty) := by
  refine Array.foldl_induction (fun n s => Tracks fast old s n ∧ motive n s)
    ⟨tracks_empty fast old, hempty⟩ ?_
  intro n s h
  have hi := Array.getElem?_eq_getElem n.isLt
  exact ⟨h.1.step hold merge hi, hstep n s _ h.1 hi h.2⟩

theorem tracks_run (merge fast : Bool) (hold : Ordered old) :
    Tracks fast old (old.foldl (Simplified.step merge fast) .empty) old.size :=
  (tracks_induction merge hold (motive := fun _ _ => True) trivial fun _ _ _ _ _ _ => trivial).1

/-- After the pass every instruction has its value. -/
theorem valueAt_run (merge : Bool) (hold : Ordered old)
    (hfolds : I.FoldsOn fast old) (hI : I.Folds) (hfast : fast = true → I.FastOn old) :
    ∀ id < old.size,
      valueAt I (old.foldl (Simplified.step merge fast) .empty).body
        ((old.foldl (Simplified.step merge fast) .empty).rename id) = valueAt I old id :=
  (tracks_induction merge hold
    (motive := fun n s => ∀ id < n, valueAt I s.body (s.rename id) = valueAt I old id)
    (fun _ h => absurd h (Nat.not_lt_zero _))
    fun _ _ _ h hi hvalues => h.step_value hold hvalues hfolds hI hfast merge hi).2

end

end Shading
