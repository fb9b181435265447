import Shading.Json.Parser
import Shading.Target

/-!
# Compile options

The options of a compile, their defaults, and the two ways to set them: from JSON, and
one at a time by name.

Main definitions:

- `Options` is the record of options, `Options.default` its initial value.
- `Options.set` sets one option from its text.
- `Options.check` tests the ranges, and `Options.load` reads options and checks them.
-/

namespace Shading

/-- Why an option was refused. -/
inductive OptionError
  | unknown (name : String)
  | invalidValue (name value : String)
  deriving Repr, DecidableEq

namespace OptionError

/-- The wording of an option error. -/
def message : OptionError → String
  | .unknown name => s!"unknown option '{name}'"
  | .invalidValue name value => s!"invalid value '{value}' for option '{name}'"

/-- The kind of an option error as it is named in reports. -/
def label : OptionError → String
  | .unknown _ => "Unknown"
  | .invalidValue .. => "InvalidValue"

/-- The status code of an option error. -/
def code : OptionError → Int
  | .unknown _ => -1
  | .invalidValue .. => -2

end OptionError

/-- The options of a compile. -/
structure Options where
  compileConstants : Bool
  fastMath : Bool
  optLevel : Nat
  internalSpace : InternalSpace
  enableExceptions : Bool
  enableRoSegment : Bool
  numTextureSpaces : Nat
  numTextureResults : Nat
  targetArch : Nat
  outputFormat : OutputFormat
  mapStringsToIds : Bool
  texLookupCallMode : CallMode
  validateOutput : Bool
  deriving Repr, DecidableEq

namespace Options

/-- The options that hold unless they are set. -/
def default : Options where
  compileConstants := true
  fastMath := true
  optLevel := 2
  internalSpace := .world
  enableExceptions := true
  enableRoSegment := false
  numTextureSpaces := 32
  numTextureResults := 0
  targetArch := 20
  outputFormat := .assembly
  mapStringsToIds := false
  texLookupCallMode := .vtable
  validateOutput := false

/-- The architecture versions that exist. -/
def supportedArchs : List Nat :=
  [20, 30, 35, 37, 50, 52, 60, 61, 62, 70]

/-- Tests the ranges of the options. -/
def check (o : Options) : Except OptionError Unit :=
  if 2 < o.optLevel then .error (.invalidValue "opt_level" (toString o.optLevel))
  else if o.targetArch ∉ supportedArchs then
    .error (.invalidValue "target_arch" (toString o.targetArch))
  else .ok ()

/-! ## Setting by name -/

/-- Reads `on` or `off`. -/
def onOff? : String → Option Bool
  | "on" => some true
  | "off" => some false
  | _ => none

/-- Reads a natural number of 32 bits: an optional plus sign and decimal digits. -/
def nat32? (s : String) : Option Nat :=
  let digits := match s.toList with
    | '+' :: rest => rest
    | cs => cs
  if digits.isEmpty then none
  else do
    let n := Digits.toNat (← digits.mapM Digits.ofChar?)
    if n < Nat.pow 2 32 then some n else none

/-- Reads an optimisation level. -/
def level? : String → Option Nat
  | "0" => some 0
  | "1" => some 1
  | "2" => some 2
  | _ => none

/-- Reads an internal space. -/
def space? : String → Option InternalSpace
  | "coordinate_world" | "world" => some .world
  | "coordinate_object" | "object" => some .object
  | _ => none

/-- Reads an architecture version. -/
def arch? (s : String) : Option Nat := do
  let n ← nat32? s
  if n ∈ supportedArchs then some n else none

/-- Sets one option from its text. -/
def set (o : Options) (name value : String) : Except OptionError Options :=
  let put {α : Type} (read : Option α) (write : α → Options) : Except OptionError Options :=
    match read with
    | some a => .ok (write a)
    | none => .error (.invalidValue name value)
  match name with
  | "compile_constants" => put (onOff? value) fun b => { o with compileConstants := b }
  | "fast_math" => put (onOff? value) fun b => { o with fastMath := b }
  | "enable_exceptions" => put (onOff? value) fun b => { o with enableExceptions := b }
  | "enable_ro_segment" => put (onOff? value) fun b => { o with enableRoSegment := b }
  | "map_strings_to_ids" => put (onOff? value) fun b => { o with mapStringsToIds := b }
  | "validate_output" => put (onOff? value) fun b => { o with validateOutput := b }
  | "opt_level" => put (level? value) fun n => { o with optLevel := n }
  | "internal_space" => put (space? value) fun s => { o with internalSpace := s }
  | "num_texture_spaces" => put (nat32? value) fun n => { o with numTextureSpaces := n }
  | "num_texture_results" => put (nat32? value) fun n => { o with numTextureResults := n }
  | "target_arch" | "sm_version" => put (arch? value) fun n => { o with targetArch := n }
  | "output_format" => put (Named.ofName? value) fun f => { o with outputFormat := f }
  | "tex_lookup_call_mode" => put (Named.ofName? value) fun m => { o with texLookupCallMode := m }
  | _ => .error (.unknown name)

/-! ## JSON -/

/-- The options as JSON. -/
def toJson (o : Options) : Json :=
  .object [("compile_constants", .bool o.compileConstants), ("fast_math", .bool o.fastMath),
    ("opt_level", .ofNat o.optLevel), ("internal_space", .ofNamed o.internalSpace),
    ("enable_exceptions", .bool o.enableExceptions),
    ("enable_ro_segment", .bool o.enableRoSegment),
    ("num_texture_spaces", .ofNat o.numTextureSpaces),
    ("num_texture_results", .ofNat o.numTextureResults), ("target_arch", .ofNat o.targetArch),
    ("output_format", .ofNamed o.outputFormat), ("map_strings_to_ids", .bool o.mapStringsToIds),
    ("tex_lookup_call_mode", .ofNamed o.texLookupCallMode),
    ("validate_output", .bool o.validateOutput)]

/-- Reads options without checking them; those that are missing have their defaults. -/
def ofJson? (j : Json) : Option Options := do
  let r ← j.record? ["compile_constants", "fast_math", "opt_level", "internal_space",
    "enable_exceptions", "enable_ro_segment", "num_texture_spaces", "num_texture_results",
    "target_arch", "output_format", "map_strings_to_ids", "tex_lookup_call_mode",
    "validate_output"]
  return {
    compileConstants := ← r.getD? "compile_constants" Json.bool? default.compileConstants
    fastMath := ← r.getD? "fast_math" Json.bool? default.fastMath
    optLevel := ← r.getD? "opt_level" Json.nat8? default.optLevel
    internalSpace := ← r.getD? "internal_space" Json.enum? default.internalSpace
    enableExceptions := ← r.getD? "enable_exceptions" Json.bool? default.enableExceptions
    enableRoSegment := ← r.getD? "enable_ro_segment" Json.bool? default.enableRoSegment
    numTextureSpaces := ← r.getD? "num_texture_spaces" Json.nat32? default.numTextureSpaces
    numTextureResults := ← r.getD? "num_texture_results" Json.nat32? default.numTextureResults
    targetArch := ← r.getD? "target_arch" Json.nat32? default.targetArch
    outputFormat := ← r.getD? "output_format" Json.enum? default.outputFormat
    mapStringsToIds := ← r.getD? "map_strings_to_ids" Json.bool? default.mapStringsToIds
    texLookupCallMode := ← r.getD? "tex_lookup_call_mode" Json.enum? default.texLookupCallMode
    validateOutput := ← r.getD? "validate_output" Json.bool? default.validateOutput }

/-- Reads options and checks them. -/
def load (document : Option Json) : Except (LoadError OptionError) Options :=
  match document.bind ofJson? with
  | none => .error .json
  | some o =>
    match o.check with
    | .error e => .error (.invalid e)
    | .ok () => .ok o

end Options

end Shading
