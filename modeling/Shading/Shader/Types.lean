import Shading.Layout.Rules
import Shading.Program.Listing

/-!
# Types in shader text

The names of types in shader text.  Structures are defined on first use, under a name
that no other structure has.

Main definitions:

- `ShaderError` is what the shading language cannot express, or why a text was refused.
- `ShaderM` carries the structures and the runtime functions named so far.
- `shaderType` names a type.
-/

namespace Shading

/-- Why a program has no shader text. -/
inductive ShaderError
  | doublePrecision
  | vectorSize (size : Nat)
  | matrixShape (type : ValueType)
  | distribution
  | unalignedRead (offset : Nat) (buffer : String)
  | storage (cause : StorageError)
  | missingField (index : Nat)
  | invalidName (name : String)
  | noResult (name : String)
  | refused (why : String)
  deriving Repr, DecidableEq

/-- The wording of a shader error. -/
def ShaderError.message : ShaderError → String
  | .doublePrecision => "double precision values are not supported on the gpu target"
  | .vectorSize size => s!"vectors of size {size} have no gpu equivalent"
  | .matrixShape type => "matrix " ++ type.text ++ " has no gpu equivalent"
  | .distribution => "distribution values cannot be materialized on the gpu target"
  | .unalignedRead offset buffer => s!"unaligned read at byte {offset} of {buffer}"
  | .storage cause => cause.message
  | .missingField index => s!"struct has no field {index}"
  | .invalidName name => s!"function name '{name}' is not a valid WGSL identifier"
  | .noResult name => s!"function '{name}' returns nothing"
  | .refused why => why

/-- A structure that was named. -/
structure ShaderStruct where
  type : ValueType
  name : String
  definition : String
  deriving DecidableEq

/-- A runtime function that is called, and its placeholder. -/
structure RuntimeStub where
  name : String
  definition : String
  deriving DecidableEq

/-- What shader text needs besides itself: structures and runtime functions, in the order
of their first use. -/
structure ShaderNames where
  structs : List ShaderStruct
  stubs : List RuntimeStub
  deriving DecidableEq

/-- Nothing is named yet. -/
def ShaderNames.empty : ShaderNames :=
  ⟨[], []⟩

/-- Writes shader text, or fails. -/
abbrev ShaderM := StateT ShaderNames (Except ShaderError)

/-! ## Identifiers -/

/-- Whether a character can stand inside an identifier. -/
def isWordChar (c : Char) : Bool :=
  c.isAlphanum || c == '_'

/-- A name with everything replaced that cannot stand in an identifier, and without
underscores in front. -/
def sanitize (name : String) : String :=
  String.ofList ((name.toList.map fun c => if isWordChar c then c else '_').dropWhile (· == '_'))

/-- Whether a name is an identifier of the shading language: words that are not a lone
underscore and do not begin with two. -/
def isIdentifier (name : String) : Bool :=
  match name.toList with
  | [] => false
  | first :: rest =>
    (first.isAlpha || (first == '_' && !rest.isEmpty && rest.head? != some '_'))
      && rest.all isWordChar

/-- The name of a structure's field. -/
def fieldName (index : Nat) (name : String) : String :=
  s!"m{index}_" ++ sanitize name

/-- The name with a number behind it, the bare name for number zero. -/
def numberedName (base : String) (k : Nat) : String :=
  if k = 0 then base else s!"{base}_{k}"

/-- The first of the numbered names that is not in use. -/
def freshName (base : String) (used : List String) : String :=
  let candidates := (List.range (used.length + 1)).map (numberedName base)
  (candidates.find? fun name => !used.contains name).getD base

/-! ## Types -/

/-- The name of a scalar type. -/
def scalarName : ScalarType → Except ShaderError String
  | .bool => .ok "bool"
  | .int => .ok "i32"
  | .float => .ok "f32"
  | .double => .error .doublePrecision

/-- Whether the shading language has vectors of a size. -/
def isVectorSize (n : Nat) : Bool :=
  2 ≤ n && n ≤ 4

/-- The name of a vector type. -/
def vectorName (element : ScalarType) (size : Nat) : Except ShaderError String :=
  if isVectorSize size then (scalarName element).map fun s => s!"vec{size}<{s}>"
  else .error (.vectorSize size)

/-- Names a structure with the given fields, unless it has a name. -/
def nameStruct (type : ValueType) (name : String) (members : List String) : ShaderM String := do
  let names ← get
  let fresh := freshName ("S_" ++ sanitize name) (names.structs.map (·.name))
  let definition :=
    s!"struct {fresh} \x7b\n" ++ String.intercalate "\n" members ++ "\n\x7d\n\n"
  set ({ names with structs := names.structs ++ [⟨type, fresh, definition⟩] } : ShaderNames)
  return fresh

mutual

/-- The name of a type. -/
def shaderType : ValueType → ShaderM String
  | .bool => return "bool"
  | .int | .enum _ | .string | .texture _ | .lightProfile | .bsdfMeasurement => return "i32"
  | .float => return "f32"
  | .double => throw .doublePrecision
  | .vector element size => vectorName element size
  | .color => return "vec3<f32>"
  | .matrix columns rows =>
    if isVectorSize columns && isVectorSize rows then return s!"mat{columns}x{rows}<f32>"
    else throw (.matrixShape (.matrix columns rows))
  | .array element size => do
    let e ← shaderType element
    return s!"array<{e}, {size}>"
  | .struct name fields => do
    match (← get).structs.find? fun s => decide (s.type = .struct name fields) with
    | some s => return s.name
    | none => nameStruct (.struct name fields) name (← shaderFields 0 fields)
  | .bsdf | .edf | .vdf => throw .distribution

/-- The lines of the fields of a structure, counted from an index. -/
def shaderFields : (index : Nat) → List (String × ValueType) → ShaderM (List String)
  | _, [] => return []
  | index, (name, t) :: rest => do
    let line := "    " ++ fieldName index name ++ ": " ++ (← shaderType t) ++ ","
    return line :: (← shaderFields (index + 1) rest)

end

end Shading
