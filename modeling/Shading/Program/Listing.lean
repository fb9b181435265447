import Shading.Bytes
import Shading.Json.Record
import Shading.Program.Basic

/-!
# Program listings

The readable text of a program: a header, the data tables, the argument blocks and the
routines, instruction by instruction.

Main definitions:

- `Program.listing` is the text of a program.
- `Routine.prototype` is the signature line of a routine.
- `Float32.listing` and `Float.listing` are the texts of numbers.
-/

namespace Shading

/-! ## Numbers and text -/

/-- Numbers are written without an exponent if their first digit stands at a power of
ten between -4 and 15. -/
def listingStyle : FloatStyle := ⟨-4, 15, .up⟩

/-- The text of a numeral in a listing. -/
def Numeral.listing (n : Numeral) : String :=
  String.ofList (n.chars false)

/-- The text of a number that is not finite. -/
def nonFiniteText (nan negative : Bool) : String :=
  if nan then "NaN" else if negative then "-inf" else "inf"

/-- The text of a 32-bit number. -/
def Float32.listing (x : Float32) : String :=
  match Float32.parts? x with
  | some (negative, m) => (listingStyle.numeral BinaryFormat.single negative m).listing
  | none => nonFiniteText x.isNaN (decide (x < 0))

/-- The text of a 64-bit number. -/
def Float.listing (x : Float) : String :=
  match Float.parts? x with
  | some (negative, m) => (listingStyle.numeral BinaryFormat.double negative m).listing
  | none => nonFiniteText x.isNaN (decide (x < 0))

/-- A number in hexadecimal, with zeros in front up to a width. -/
def hexText (width n : Nat) : String :=
  let digits := Nat.toDigits 16 n
  String.ofList (List.replicate (width - digits.length) '0' ++ digits)

/-- A character in a quoted text: quotes, backslashes and everything but printable ASCII
is escaped. -/
def escapeChar (c : Char) : List Char :=
  if c = '\t' then ['\\', 't']
  else if c = '\r' then ['\\', 'r']
  else if c = '\n' then ['\\', 'n']
  else if c = '\'' ∨ c = '"' ∨ c = '\\' then ['\\', c]
  else if 0x20 ≤ c.toNat ∧ c.toNat ≤ 0x7e then [c]
  else ("\\u\x7b" ++ hexText 1 c.toNat ++ "\x7d").toList

/-- A text with escapes. -/
def escapeText (s : String) : String :=
  String.ofList (s.toList.flatMap escapeChar)

/-- Lines as one text. -/
def linesText (lines : List String) : String :=
  String.join (lines.map (· ++ "\n"))

/-- Texts with commas between them. -/
def commaText (items : List String) : String :=
  String.intercalate ", " items

/-! ## Instructions -/

/-- The mnemonic of an operator of two operands. -/
def BinaryOp.mnemonic : BinaryOp → String
  | .less => "lt"
  | .lessEqual => "le"
  | .greater => "gt"
  | .equal => "eq"
  | op => Named.name op

/-- An operand. -/
def operandText (id : Nat) : String :=
  "%" ++ toString id

/-- Operands with commas between them. -/
def operandsText (ids : List Nat) : String :=
  commaText (ids.map operandText)

/-- The text of an operation. -/
def Op.listing : Op → String
  | .bool b => "const " ++ (if b then "true" else "false")
  | .int n => "const " ++ toString n.toInt
  | .float x => "const " ++ Float32.listing x
  | .double x => "const " ++ Float.listing x ++ "d"
  | .roLoad offset => s!"ro_load +{offset}"
  | .argLoad block offset => s!"arg_load {block} +{offset}"
  | .construct args => "construct " ++ operandsText args
  | .extract value index => "extract " ++ operandText value ++ s!", {index}"
  | .unary op a => Named.name op ++ " " ++ operandsText [a]
  | .binary op a b => op.mnemonic ++ " " ++ operandsText [a, b]
  | .ternary op a b c => Named.name op ++ " " ++ operandsText [a, b, c]
  | .state field => "state " ++ Named.name field
  | .textureCoordinate index => s!"texture_coordinate {index}"
  | .textureResult index => s!"texture_result {index}"
  | .runtimeCall name args => s!"call @{name}(" ++ operandsText args ++ ")"

namespace Routine

/-- The parameters in a signature. -/
def parameterTexts (r : Routine) : List String :=
  ["state"] ++ (match r.argBlock with
    | some block => [s!"args: arg_block {block}"]
    | none => []) ++ (if r.kind = .switchLambda then ["index: int"] else [])

/-- The result in a signature. -/
def resultText (r : Routine) : String :=
  let types := r.resultTypes.map ValueType.text
  match r.kind with
  | .dfInit => "void"
  | .switchLambda => "switch(" ++ commaText types ++ ")"
  | _ => types.head?.getD "void"

/-- The signature line of a routine. -/
def prototype (r : Routine) : String :=
  s!"fn {r.name}(" ++ commaText r.parameterTexts ++ ") -> " ++ r.resultText

/-- The lines of a routine. -/
def lines (r : Routine) : List String :=
  ["; " ++ Named.name r.kind ++ " " ++ r.context.label, r.prototype ++ " \x7b"]
    ++ (r.body.toList.zipIdx.map fun i =>
      "  " ++ operandText i.2 ++ ": " ++ i.1.type.text ++ " = " ++ i.1.op.listing)
    ++ (r.stores.map fun s => s!"  store texture_result {s.1}, " ++ operandText s.2)
    ++ (if r.results.isEmpty then [] else ["  ret " ++ operandsText r.results])
    ++ ["\x7d"]

end Routine

/-! ## Programs -/

namespace Program

/-- The rows of sixteen bytes of the read-only data. -/
def roLines (bytes : Bytes) : List String :=
  (List.range ((bytes.length + 15) / 16)).map fun row =>
    let chunk := (bytes.drop (16 * row)).take 16
    "  " ++ hexText 4 (16 * row) ++ ": "
      ++ String.intercalate " " (chunk.map fun b => String.ofList (Bytes.hexByte b))

/-- The lines of the read-only data, none if it is empty. -/
def roSegmentLines (bytes : Bytes) : List String :=
  if bytes.isEmpty then [] else (s!"ro_segment {bytes.length} bytes") :: roLines bytes

/-- The line of an argument block. -/
def argBlockLine (b : ArgBlock × Nat) : String :=
  let fields := (b.1.names.zip b.1.types).map fun f => f.1 ++ ": " ++ f.2.text
  s!"arg_block {b.2} \x7b " ++ commaText fields ++ " \x7d"

/-- The lines above the routines. -/
def headerLines (p : Program) : List String :=
  ["; node-forge portable ir", "; state_usage 0x" ++ hexText 2 p.stateUsage.bits,
    s!"; texture_spaces {p.numTextureSpaces} texture_results {p.numTextureResults}"]
    ++ roSegmentLines p.roSegment
    ++ (p.strings.zipIdx.map fun s => s!"string {s.2} \"" ++ escapeText s.1 ++ "\"")
    ++ p.argBlocks.zipIdx.map argBlockLine

/-- The text of a program. -/
def listing (p : Program) : String :=
  linesText (p.headerLines ++ p.routines.flatMap fun r => "" :: r.lines)

end Program

end Shading
