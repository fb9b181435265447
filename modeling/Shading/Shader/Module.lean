import Shading.Program.Optimize
import Shading.Shader.Expression

/-!
# Shader modules

The shader text of a whole program.  Every function takes the shading state by pointer;
a switch takes the index of the wanted result and writes the result as numbers.  Its cases
are blocks of their own; any other function is one block.

Main definitions:

- `ShaderModule` is the text with placeholders for the runtime functions.
- `Statement` is a line of a function, `Block` the lines between braces.
- `Routine.shader` writes a routine, `Program.shader` a program.
-/

namespace Shading

/-- Shader text, the placeholders of the runtime functions that it calls, and one
signature for each of its functions. -/
structure ShaderModule where
  source : String
  stubs : String
  prototypes : List String
  deriving Repr, DecidableEq

/-- The text with the placeholders in front, which stands on its own. -/
def ShaderModule.withStubs (m : ShaderModule) : String :=
  m.stubs ++ "\n" ++ m.source

/-- The shading state among the parameters. -/
def stateParameter : String :=
  "state: ptr<function, ShadingState>"

/-! ## Blocks -/

/-- A line of a function: it binds the constant of an instruction, writes a number of the
result, stores a texture result, or returns. -/
inductive Statement
  | bind (id : Nat) (type : String) (value : Phrase)
  | write (index : Nat) (number : Phrase)
  | store (slot : Nat) (value : Phrase)
  | result (value : Phrase)

namespace Statement

/-- The text of a line. -/
def text : Statement → String
  | bind id type value => "let " ++ instrName id ++ s!": {type} = {value.text};\n"
  | write index number => s!"(*result)[{index}] = {number.text};\n"
  | store slot value => s!"(*state).texture_results[{slot}] = {value.text};\n"
  | result value => s!"return {value.text};\n"

/-- The place in the result that a line writes. -/
def written? : Statement → Option Nat
  | write index _ => some index
  | _ => none

end Statement

/-- Lines that stand between braces. -/
abbrev Block := List Statement

namespace Block

/-- The text of a block. -/
def text (indent : String) (b : Block) : String :=
  String.join (b.map fun s => indent ++ s.text)

/-- The places in the result that a block writes, in order. -/
def writes (b : Block) : List Nat :=
  b.filterMap Statement.written?

/-- The text of a case of a switch with its index. -/
def caseText (c : Block × Nat) : String :=
  s!"        case {c.2}i: \x7b\n" ++ text "            " c.1
    ++ "            return true;\n        \x7d\n"

end Block

/-- The room for the result of a switch: the greatest count of numbers. -/
def resultWidth (cases : List Block) : Nat :=
  (cases.map fun c => c.writes.length).foldr max 1

/-- The text of a switch. -/
def switchText (prototype : String) (cases : List Block) : String :=
  prototype ++ " \x7b\n    switch index \x7b\n" ++ String.join (cases.zipIdx.map Block.caseText)
    ++ "        default: \x7b\x7d\n    \x7d\n    return false;\n\x7d\n"

/-- The text of any other function. -/
def functionText (prototype : String) (body : Block) : String :=
  prototype ++ " \x7b\n" ++ body.text "    " ++ "\x7d\n"

namespace Routine

/-- The line of an instruction with its id. -/
def binding (r : Routine) (i : Instr × Nat) : ShaderM Statement := do
  let t ← shaderType i.1.type
  return .bind i.2 t (← instrText r i.1)

/-- The instructions that some instructions need, with their ids. -/
def neededBy (r : Routine) (outside : List Nat) : List (Instr × Nat) :=
  let body := r.body.toList.zipIdx
  let needed := neededIds body outside
  body.filter fun i => decide (i.2 ∈ needed)

/-- A case of a switch: computes one result and writes its numbers. -/
def caseBlock (r : Routine) (result : Nat) : ShaderM Block := do
  let numbers ← flattenText (r.typeOf result) [.constant result]
  let body ← (r.neededBy [result]).mapM r.binding
  return body ++ numbers.zipIdx.map fun n => .write n.2 n.1

/-- A texture result padded to four numbers. -/
def storeText (r : Routine) (id : Nat) : Phrase :=
  match r.typeOf id with
  | .float => [.plain "vec4<f32>(", .constant id, .plain ", 0.0f, 0.0f, 0.0f)"]
  | .vector _ 2 => [.plain "vec4<f32>(", .constant id, .plain ", 0.0f, 0.0f)"]
  | .vector _ 4 => [.constant id]
  | _ => [.plain "vec4<f32>(", .constant id, .plain ", 0.0f)"]

/-- The signature of a switch with room for some numbers. -/
def switchPrototype (r : Routine) (width : Nat) : String :=
  s!"fn {r.name}({stateParameter}, index: i32, "
    ++ s!"result: ptr<function, array<f32, {width}>>) -> bool"

/-- The signature and the text of a routine. -/
def shader (r : Routine) : ShaderM (String × String) := do
  if !isIdentifier r.name then throw (.invalidName r.name)
  match r.kind with
  | .switchLambda =>
    let cases ← r.results.mapM r.caseBlock
    let prototype := r.switchPrototype (resultWidth cases)
    return (prototype, switchText prototype cases)
  | .dfInit =>
    let prototype := s!"fn {r.name}({stateParameter})"
    let body ← (r.neededBy (r.stores.map (·.2))).mapM r.binding
    let stores := r.stores.map fun s => .store s.1 (r.storeText s.2)
    return (prototype, functionText prototype (body ++ stores))
  | _ =>
    match r.results with
    | [] => throw (.noResult r.name)
    | result :: _ =>
      let t ← shaderType (r.typeOf result)
      let prototype := s!"fn {r.name}({stateParameter}) -> {t}"
      let body ← r.body.toList.zipIdx.mapM r.binding
      return (prototype, functionText prototype (body ++ [.result [.constant result]]))

end Routine

/-- The signatures and the texts of routines, in order. -/
def routineShaders : List Routine → ShaderM (List String × String)
  | [] => return ([], "")
  | r :: rest => do
    let (prototype, text) ← r.shader
    let (prototypes, texts) ← routineShaders rest
    return (prototype :: prototypes, "\n" ++ text ++ texts)

namespace Program

/-- The definition of the shading state. -/
def stateStruct (p : Program) : String :=
  "struct ShadingState \x7b\n" ++ linesText (["    normal: vec3<f32>,", "    position: vec3<f32>,",
    "    direction: vec3<f32>,", "    animation_time: f32,", "    object_id: i32,"]
    ++ (if 0 < p.numTextureSpaces then
          [s!"    texture_coords: array<vec3<f32>, {p.numTextureSpaces}>,"] else [])
    ++ (if 0 < p.numTextureResults then
          [s!"    texture_results: array<vec4<f32>, {p.numTextureResults}>,"] else []))
    ++ "\x7d\n"

/-- The declarations of the buffers. -/
def bufferLines (p : Program) : List String :=
  (if p.roSegment.isEmpty then []
    else ["@group(0) @binding(0) var<storage, read> ro_data: array<u32>;"])
    ++ p.argBlocks.zipIdx.flatMap fun b =>
      [s!"// arg block {b.2}: " ++ commaText b.1.names,
        s!"@group(1) @binding({b.2}) var<storage, read> arg_block_{b.2}: array<u32>;"]

/-- The shader text of a program. -/
def shader (p : Program) : Except ShaderError ShaderModule := do
  let ((prototypes, functions), names) ← (routineShaders p.routines).run .empty
  return {
    source := "// generated by node-forge-codegen\n\n" ++ p.stateStruct ++ "\n"
      ++ String.join (names.structs.map (·.definition)) ++ linesText p.bufferLines ++ functions
    stubs := String.join (names.stubs.map (·.definition))
    prototypes }

end Program

end Shading
