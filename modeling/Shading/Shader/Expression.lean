import Shading.Shader.Types

/-!
# Expressions in shader text

The text of the instructions of a routine.  Instruction `i` is the constant `vi`, and an
expression is written as the constants in it and the text around them.  Argument blocks and
the read-only data are buffers of words, from which values are put together part by part.

Main definitions:

- `Phrase` is an expression.
- `loadText` reads a value from a buffer.
- `instrText` is the text of an instruction.
- `flattenText` takes a value apart into numbers.
-/

namespace Shading

/-! ## Literals -/

/-- An integer. -/
def intText (n : Int32) : String :=
  if n = Int32.minValue then "(-2147483647i - 1i)" else toString n.toInt ++ "i"

/-- A number; one that is not finite is written by its bits. -/
def floatText (x : Float32) : String :=
  if (Float32.parts? x).isSome then Float32.listing x ++ "f"
  else "bitcast<f32>(" ++ toString x.toBits.toNat ++ "u)"

/-- The name of an instruction. -/
def instrName (id : Nat) : String :=
  "v" ++ toString id

/-! ## Phrases -/

/-- A piece of an expression: the constant of an instruction, or plain text. -/
inductive Piece
  | constant (id : Nat)
  | plain (text : String)

/-- An expression, piece by piece. -/
abbrev Phrase := List Piece

namespace Phrase

/-- The text of an expression. -/
def text : Phrase → String
  | [] => ""
  | .constant id :: rest => instrName id ++ text rest
  | .plain s :: rest => s ++ text rest

/-- A function applied to its arguments, or a value put together from its parts. -/
def call (name : String) (args : List Phrase) : Phrase :=
  [.plain (name ++ "(")] ++ [.plain ", "].intercalate args ++ [.plain ")"]

end Phrase

/-! ## Reading buffers -/

/-- The word of a buffer at a byte offset. -/
def bufferWord (buffer : String) (offset : Nat) : Except ShaderError String :=
  if offset % 4 = 0 then .ok (buffer ++ "[" ++ toString (offset / 4) ++ "]")
  else .error (.unalignedRead offset buffer)

/-- Reads a scalar. -/
def loadScalar (buffer : String) (s : ScalarType) (offset : Nat) : Except ShaderError String := do
  let word ← bufferWord buffer offset
  match s with
  | .bool => return s!"({word} != 0u)"
  | .int => return s!"bitcast<i32>({word})"
  | .float => return s!"bitcast<f32>({word})"
  | .double => throw .doublePrecision

/-- A value put together from its parts. -/
def partsText (type : String) (parts : List String) : String :=
  type ++ "(" ++ commaText parts ++ ")"

/-- Reads a vector. -/
def loadVector (buffer : String) (element : ScalarType) (size offset : Nat) :
    Except ShaderError String := do
  let _ ← bufferWord buffer offset
  let offsets := (ValueType.vector element size).childOffsets .gpuStorage
  let parts ← offsets.mapM fun o => loadScalar buffer element (offset + o)
  return partsText (← vectorName element size) parts

mutual

/-- Reads a value of a type at a byte offset of a buffer. -/
def loadText (buffer : String) : ValueType → (offset : Nat) → ShaderM String
  | .bool, offset => loadScalar buffer .bool offset
  | .int, offset | .enum _, offset | .string, offset | .texture _, offset | .lightProfile, offset
  | .bsdfMeasurement, offset => loadScalar buffer .int offset
  | .float, offset => loadScalar buffer .float offset
  | .double, offset => loadScalar buffer .double offset
  | .vector element size, offset => loadVector buffer element size offset
  | .color, offset => loadVector buffer .float 3 offset
  | .matrix columns rows, offset => do
    let _ ← bufferWord buffer offset
    let offsets := (ValueType.matrix columns rows).childOffsets .gpuStorage
    let parts ← offsets.mapM fun o => loadVector buffer .float rows (offset + o)
    return partsText (← shaderType (.matrix columns rows)) parts
  | .array element size, offset => do
    let _ ← bufferWord buffer offset
    match element.distribution? with
    | some d => throw (.storage ⟨d⟩)
    | none =>
      let offsets := (ValueType.array element size).childOffsets .gpuStorage
      let parts ← offsets.mapM fun o => loadText buffer element (offset + o)
      return partsText (← shaderType (.array element size)) parts
  | .struct name fields, offset => do
    let _ ← bufferWord buffer offset
    match ValueType.distributionField? fields with
    | some d => throw (.storage ⟨d⟩)
    | none =>
      let offsets := (ValueType.struct name fields).childOffsets .gpuStorage
      let parts ← loadFields buffer fields (offsets.map (offset + ·))
      return partsText (← shaderType (.struct name fields)) parts
  | .bsdf, offset | .edf, offset | .vdf, offset => do
    let _ ← bufferWord buffer offset
    throw .distribution

/-- Reads the fields of a structure at their offsets. -/
def loadFields (buffer : String) : List (String × ValueType) → List Nat → ShaderM (List String)
  | (_, t) :: rest, offset :: offsets => do
    let part ← loadText buffer t offset
    return part :: (← loadFields buffer rest offsets)
  | _, _ => return []

end

/-! ## Instructions -/

/-- Whether a type is a scalar in shader text. -/
def ValueType.isShaderScalar : ValueType → Bool
  | .bool | .int | .float | .string => true
  | _ => false

/-- Whether a type is a vector in shader text. -/
def ValueType.isShaderVector : ValueType → Bool
  | .vector .. | .color => true
  | _ => false

/-- The type of an operand. -/
def Routine.typeOf (r : Routine) (id : Nat) : ValueType :=
  (r.type? id).getD .int

/-- An operand where a type is wanted: a scalar in place of a vector is repeated. -/
def operandAs (r : Routine) (id : Nat) (type : ValueType) : ShaderM Phrase := do
  if (r.typeOf id).isShaderScalar && type.isShaderVector then
    return .call (← shaderType type) [[.constant id]]
  else return [.constant id]

/-- A value made of parts.  A single part of a matrix, an array or a structure is
repeated; a vector repeats it by itself. -/
def constructText (type : ValueType) (args : List Nat) : ShaderM Phrase := do
  let t ← shaderType type
  match args with
  | [a] =>
    if 1 < type.childCount && !type.isShaderVector then
      return .call t (List.replicate type.childCount [.constant a])
    else return .call t [[.constant a]]
  | _ => return .call t (args.map fun a => [.constant a])

/-- A part of a value: a field of a structure, or an element. -/
def extractText (r : Routine) (value index : Nat) : ShaderM Phrase := do
  match r.typeOf value with
  | .struct _ fields =>
    match fields[index]? with
    | some (name, _) => return [.constant value, .plain ("." ++ fieldName index name)]
    | none => throw (.missingField index)
  | _ => return [.constant value, .plain s!"[{index}]"]

/-- An operator of one operand. -/
def unaryText (op : UnaryOp) (a : Nat) : Phrase :=
  match op with
  | .neg => [.plain "(-", .constant a, .plain ")"]
  | .not => [.plain "(!", .constant a, .plain ")"]
  | _ => .call (Named.name op) [[.constant a]]

/-- An operator between its operands. -/
def betweenText (sign : String) (a b : Nat) : Phrase :=
  [.plain "(", .constant a, .plain (" " ++ sign ++ " "), .constant b, .plain ")"]

/-- An operator of two operands.  Conjunction and disjunction of anything but truth
values work bit by bit. -/
def binaryText (r : Routine) (type : ValueType) (op : BinaryOp) (a b : Nat) : ShaderM Phrase := do
  match op with
  | .add => return betweenText "+" a b
  | .sub => return betweenText "-" a b
  | .mul => return betweenText "*" a b
  | .div => return betweenText "/" a b
  | .less => return betweenText "<" a b
  | .lessEqual => return betweenText "<=" a b
  | .greater => return betweenText ">" a b
  | .equal => return betweenText "==" a b
  | .and => return betweenText (if type = .bool then "&&" else "&") a b
  | .or => return betweenText (if type = .bool then "||" else "|") a b
  | .dot | .cross => return .call (Named.name op) [[.constant a], [.constant b]]
  | .min | .max | .pow =>
    let x ← operandAs r a type
    let y ← operandAs r b type
    return .call (Named.name op) [x, y]

/-- An operator of three operands. -/
def ternaryText (r : Routine) (type : ValueType) (op : TernaryOp) (a b c : Nat) :
    ShaderM Phrase := do
  match op with
  | .select =>
    let onTrue ← operandAs r b type
    let onFalse ← operandAs r c type
    return .call "select" [onFalse, onTrue, [.constant a]]
  | .clamp =>
    let low ← operandAs r b type
    let high ← operandAs r c type
    return .call "clamp" [[.constant a], low, high]
  | .lerp =>
    let start ← operandAs r a type
    let stop ← operandAs r b type
    return .call "mix" [start, stop, [.constant c]]

/-- The components of a texture result that a value takes. -/
def swizzle : ValueType → String
  | .float => ".x"
  | .vector _ 2 => ".xy"
  | .vector _ 4 => ""
  | _ => ".xyz"

/-- The parameters of a placeholder, counted from an index. -/
def stubParameters (r : Routine) : (index : Nat) → List Nat → ShaderM (List String)
  | _, [] => return []
  | index, a :: rest => do
    let t ← shaderType (r.typeOf a)
    return s!"a{index}: {t}" :: (← stubParameters r (index + 1) rest)

/-- Makes a placeholder for a runtime function on its first call. -/
def noteRuntime (r : Routine) (name : String) (args : List Nat) (type : ValueType) :
    ShaderM Unit := do
  if (← get).stubs.any fun s => s.name == name then return
  let parameters ← stubParameters r 0 args
  let t ← shaderType type
  let definition :=
    s!"fn {name}(" ++ commaText parameters ++ s!") -> {t} \x7b return {t}(); \x7d\n"
  modify fun names => { names with stubs := names.stubs ++ [⟨name, definition⟩] }

/-- The text of an instruction. -/
def instrText (r : Routine) (i : Instr) : ShaderM Phrase := do
  match i.op with
  | .bool b => return [.plain (if b then "true" else "false")]
  | .int n => return [.plain (intText n)]
  | .float x => return [.plain (floatText x)]
  | .double _ => throw .doublePrecision
  | .roLoad offset => return [.plain (← loadText "ro_data" i.type offset)]
  | .argLoad block offset => return [.plain (← loadText (s!"arg_block_{block}") i.type offset)]
  | .construct args => constructText i.type args
  | .extract value index => extractText r value index
  | .unary op a => return unaryText op a
  | .binary op a b => binaryText r i.type op a b
  | .ternary op a b c => ternaryText r i.type op a b c
  | .state field => return [.plain ("(*state)." ++ Named.name field)]
  | .textureCoordinate index => return [.plain s!"(*state).texture_coords[{index}]"]
  | .textureResult index =>
    return [.plain (s!"(*state).texture_results[{index}]" ++ swizzle i.type)]
  | .runtimeCall name args =>
    noteRuntime r name args i.type
    return .call name (args.map fun a => [.constant a])

/-! ## Taking values apart -/

/-- A scalar as a number. -/
def flattenScalar (s : ScalarType) (e : Phrase) : Except ShaderError (List Phrase) :=
  match s with
  | .float => .ok [e]
  | .bool => .ok [.call "select" [[.plain "0.0f"], [.plain "1.0f"], e]]
  | .int => .ok [.call "f32" [e]]
  | .double => .error .doublePrecision

/-- The numbers in the elements of a value.  A value without elements is taken for a number. -/
def flattenElements (flatten : Phrase → Except ShaderError (List Phrase)) (count : Nat)
    (e : Phrase) : Except ShaderError (List Phrase) :=
  if count = 0 then flattenScalar .int e
  else (((List.range count).map fun i => e ++ [.plain s!"[{i}]"]).mapM flatten).map List.flatten

mutual

/-- The numbers in a value of a type. -/
def flattenText : ValueType → (e : Phrase) → Except ShaderError (List Phrase)
  | .float, e => flattenScalar .float e
  | .bool, e => flattenScalar .bool e
  | .double, e => flattenScalar .double e
  | .struct _ fields, e => flattenFields 0 fields e
  | .vector element size, e => flattenElements (flattenScalar element) size e
  | .color, e => flattenElements (flattenScalar .float) 3 e
  | .matrix columns rows, e =>
    flattenElements (flattenElements (flattenScalar .float) rows) columns e
  | .array element size, e => flattenElements (fun part => flattenText element part) size e
  | _, e => flattenScalar .int e

/-- The numbers in the fields of a structure, counted from an index. -/
def flattenFields : (index : Nat) → List (String × ValueType) → (e : Phrase) →
    Except ShaderError (List Phrase)
  | _, [], _ => .ok []
  | index, (name, t) :: rest, e => do
    let first ← flattenText t (e ++ [.plain ("." ++ fieldName index name)])
    return first ++ (← flattenFields (index + 1) rest e)

end

end Shading
