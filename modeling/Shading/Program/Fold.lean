import Shading.Program.Basic

/-!
# Constant folding

What an operator gives for constant operands, and the identities by which an
instruction can be replaced by a simpler one.

Main definitions:

- `UnaryOp.fold?` and `BinaryOp.fold?` apply operators to constants.
- `Simplification` is what can become of an instruction, and `Instr.simplification` finds it.
-/

namespace Shading

/-! ## Floating-point rules -/

/-- The smaller number; of a number and a NaN, the number.  Of two zeros it is the second
one. -/
def Float32.least (x y : Float32) : Float32 :=
  if y.isNaN then x else if x < y then x else y

/-- The greater number; of a number and a NaN, the number.  Of two zeros it is the second
one. -/
def Float32.greatest (x y : Float32) : Float32 :=
  if y.isNaN then x else if y < x then x else y

/-- The nearest number between zero and one; a NaN stays. -/
def Float32.saturate (x : Float32) : Float32 :=
  if x < 0 then 0 else if 1 < x then 1 else x

/-- The sine, taken in the 64-bit format and rounded. -/
def Float32.roundedSin (x : Float32) : Float32 :=
  x.toFloat.sin.toFloat32

/-- The cosine, taken in the 64-bit format and rounded. -/
def Float32.roundedCos (x : Float32) : Float32 :=
  x.toFloat.cos.toFloat32

/-- The power, taken in the 64-bit format and rounded. -/
def Float32.roundedPow (x y : Float32) : Float32 :=
  (x.toFloat.pow y.toFloat).toFloat32

/-- The quotient of two integers, if there is one that fits. -/
def Int32.quotient? (x y : Int32) : Option Int32 :=
  if y = 0 ∨ (x = Int32.minValue ∧ y = -1) then none else some (x / y)

/-! ## Constants -/

/-- The result of an operator on a constant. -/
def UnaryOp.fold? : UnaryOp → Op → Option Op
  | .neg, .float x => some (.float (-x))
  | .neg, .int n => some (.int (-n))
  | .not, .bool b => some (.bool !b)
  | .sin, .float x => some (.float (Float32.roundedSin x))
  | .cos, .float x => some (.float (Float32.roundedCos x))
  | .sqrt, .float x => some (.float x.sqrt)
  | .abs, .float x => some (.float x.abs)
  | .abs, .int n => some (.int (if n < 0 then -n else n))
  | .floor, .float x => some (.float x.floor)
  | .saturate, .float x => some (.float (Float32.saturate x))
  | _, _ => none

namespace BinaryOp

/-- The result of an operator on two numbers. -/
def foldFloat? (x y : Float32) : BinaryOp → Option Op
  | .add => some (.float (x + y))
  | .sub => some (.float (x - y))
  | .mul => some (.float (x * y))
  | .div => some (.float (x / y))
  | .min => some (.float (Float32.least x y))
  | .max => some (.float (Float32.greatest x y))
  | .pow => some (.float (Float32.roundedPow x y))
  | .less => some (.bool (decide (x < y)))
  | .lessEqual => some (.bool (decide (x ≤ y)))
  | .greater => some (.bool (decide (y < x)))
  | .equal => some (.bool (x == y))
  | _ => none

/-- The result of an operator on two integers. -/
def foldInt? (x y : Int32) : BinaryOp → Option Op
  | .add => some (.int (x + y))
  | .sub => some (.int (x - y))
  | .mul => some (.int (x * y))
  | .div => (Int32.quotient? x y).map .int
  | .min => some (.int (if y < x then y else x))
  | .max => some (.int (if x < y then y else x))
  | .less => some (.bool (decide (x < y)))
  | .lessEqual => some (.bool (decide (x ≤ y)))
  | .greater => some (.bool (decide (y < x)))
  | .equal => some (.bool (x == y))
  | _ => none

/-- The result of an operator on two truth values. -/
def foldBool? (x y : Bool) : BinaryOp → Option Op
  | .and => some (.bool (x && y))
  | .or => some (.bool (x || y))
  | .equal => some (.bool (x == y))
  | _ => none

/-- The result of an operator on two constants of one type. -/
def fold? (op : BinaryOp) : Op → Op → Option Op
  | .float x, .float y => op.foldFloat? x y
  | .int x, .int y => op.foldInt? x y
  | .bool x, .bool y => op.foldBool? x y
  | _, _ => none

end BinaryOp

/-! ## Simplifications -/

/-- What becomes of an instruction: it stays, another instruction stands in for it,
another operation does, or it is multiplied by a reciprocal. -/
inductive Simplification
  | keep
  | alias (id : Nat)
  | replace (op : Op)
  | scale (value : Nat) (factor : Float32)
  deriving DecidableEq

/-- Whether a type is a float or made of floats side by side. -/
def ValueType.isFloatBased : ValueType → Bool
  | .float | .color => true
  | .vector element _ => element = .float
  | _ => false

/-- Whether an instruction is the given float. -/
def isFloat (body : Array Instr) (id : Nat) (c : Float32) : Bool :=
  match body[id]? with
  | some ⟨_, .float x⟩ => x == c
  | _ => false

/-- Whether an instruction has the given type. -/
def hasType (body : Array Instr) (id : Nat) (t : ValueType) : Bool :=
  match body[id]? with
  | some i => i.type = t
  | none => false

/-- The operation at a position. -/
def opAt (body : Array Instr) (id : Nat) : Option Op :=
  body[id]?.map (·.op)

/-- The identities that hold but for rounding, signed zeros and values that are not
finite: factors of one, summands of zero, and division by a constant. -/
def fastSimplification (body : Array Instr) (t : ValueType) (op : BinaryOp) (x y : Nat) :
    Simplification :=
  match op with
  | .mul =>
    if isFloat body y 1 && hasType body x t then .alias x
    else if isFloat body x 1 && hasType body y t then .alias y
    else .keep
  | .add =>
    if isFloat body y 0 && hasType body x t then .alias x
    else if isFloat body x 0 && hasType body y t then .alias y
    else .keep
  | .sub => if isFloat body y 0 && hasType body x t then .alias x else .keep
  | .div =>
    match opAt body y with
    | some (.float c) => if c == 0 then .keep else .scale x (1 / c)
    | _ => .keep
  | _ => .keep

/-- What becomes of an operator of two operands. -/
def binarySimplification (body : Array Instr) (fastMath : Bool) (t : ValueType) (op : BinaryOp)
    (x y : Nat) : Simplification :=
  match opAt body x, opAt body y with
  | some a, some b =>
    match op.fold? a b with
    | some c => .replace c
    | none => if fastMath && t.isFloatBased then fastSimplification body t op x y else .keep
  | _, _ => .keep

/-- What becomes of an instruction that follows a body: constants are folded, and a
selection by a constant or from a value made of parts is the selected part, if that
has the type of the instruction. -/
def Instr.simplification (body : Array Instr) (fastMath : Bool) (i : Instr) : Simplification :=
  match i.op with
  | .unary op a =>
    match (opAt body a).bind op.fold? with
    | some c => .replace c
    | none => .keep
  | .binary op x y => binarySimplification body fastMath i.type op x y
  | .ternary .select c a b =>
    match opAt body c with
    | some (.bool true) => if hasType body a i.type then .alias a else .keep
    | some (.bool false) => if hasType body b i.type then .alias b else .keep
    | _ => .keep
  | .extract value index =>
    match body[value]? with
    | some ⟨t, .construct args⟩ =>
      match args[index]? with
      | some a => if args.length = t.childCount ∧ hasType body a i.type then .alias a else .keep
      | none => .keep
    | _ => .keep
  | _ => .keep

end Shading
