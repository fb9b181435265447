import Shading.Options
import Shading.Program.Basic

/-!
# Intrinsic functions

The functions that a call can name without defining them.

Main definitions:

- `Intrinsic` is the type of intrinsics, `Intrinsic.ofName?` finds one by name.
- `StateQuery`, `TextureLookup`, `ResourceQuery` and `BsdfNode` are its families.
- `Intrinsic.label` is the name in diagnostics.
-/

namespace Shading

/-- Reads of the shading state. -/
inductive StateQuery
  | normal
  | position
  | objectPosition
  | objectNormal
  | objectId
  | textureCoordinate
  | direction
  | animationTime
  deriving Repr, DecidableEq

instance : Named StateQuery where
  all := [.normal, .position, .objectPosition, .objectNormal, .objectId, .textureCoordinate,
    .direction, .animationTime]
  name
    | .normal => "state::normal"
    | .position => "state::position"
    | .objectPosition => "state::object_position"
    | .objectNormal => "state::object_normal"
    | .objectId => "state::object_id"
    | .textureCoordinate => "state::texture_coordinate"
    | .direction => "state::direction"
    | .animationTime => "state::animation_time"

/-- The query as it is named in diagnostics. -/
def StateQuery.label : StateQuery → String
  | .normal => "StateNormal"
  | .position => "StatePosition"
  | .objectPosition => "StateObjectPosition"
  | .objectNormal => "StateObjectNormal"
  | .objectId => "StateObjectId"
  | .textureCoordinate => "StateTextureCoordinate"
  | .direction => "StateDirection"
  | .animationTime => "StateAnimationTime"

/-- Texture lookups by the type of the result. -/
inductive TextureLookup
  | float
  | float3
  | color
  deriving Repr, DecidableEq

instance : Named TextureLookup where
  all := [.float, .float3, .color]
  name
    | .float => "tex::lookup_float"
    | .float3 => "tex::lookup_float3"
    | .color => "tex::lookup_color"

namespace TextureLookup

/-- The lookup as it is named in diagnostics. -/
def label : TextureLookup → String
  | .float => "TexLookupFloat"
  | .float3 => "TexLookupFloat3"
  | .color => "TexLookupColor"

/-- The result in the names of runtime functions. -/
def resultName : TextureLookup → String
  | .float => "float"
  | .float3 => "float3"
  | .color => "color"

end TextureLookup

/-- Questions about a resource that are answered at compile time if the resource is
known. -/
inductive ResourceQuery
  | texWidth
  | texHeight
  | texDepth
  | texIsValid
  | lightProfilePower
  | lightProfileMaximum
  | lightProfileIsValid
  | bsdfMeasurementIsValid
  deriving Repr, DecidableEq

instance : Named ResourceQuery where
  all := [.texWidth, .texHeight, .texDepth, .texIsValid, .lightProfilePower, .lightProfileMaximum,
    .lightProfileIsValid, .bsdfMeasurementIsValid]
  name
    | .texWidth => "tex::width"
    | .texHeight => "tex::height"
    | .texDepth => "tex::depth"
    | .texIsValid => "tex::texture_isvalid"
    | .lightProfilePower => "df::light_profile_power"
    | .lightProfileMaximum => "df::light_profile_maximum"
    | .lightProfileIsValid => "df::light_profile_isvalid"
    | .bsdfMeasurementIsValid => "df::bsdf_measurement_isvalid"

namespace ResourceQuery

/-- The query as it is named in diagnostics. -/
def label : ResourceQuery → String
  | .texWidth => "TexWidth"
  | .texHeight => "TexHeight"
  | .texDepth => "TexDepth"
  | .texIsValid => "TexIsValid"
  | .lightProfilePower => "LightProfilePower"
  | .lightProfileMaximum => "LightProfileMaximum"
  | .lightProfileIsValid => "LightProfileIsValid"
  | .bsdfMeasurementIsValid => "BsdfMeasurementIsValid"

/-- The runtime function that answers the query. -/
def runtimeName : ResourceQuery → String
  | .texWidth => "tex_width"
  | .texHeight => "tex_height"
  | .texDepth => "tex_depth"
  | .texIsValid => "tex_isvalid"
  | .lightProfilePower => "lp_power"
  | .lightProfileMaximum => "lp_maximum"
  | .lightProfileIsValid => "lp_isvalid"
  | .bsdfMeasurementIsValid => "bm_isvalid"

end ResourceQuery

/-- The building blocks of distributions. -/
inductive BsdfNode
  | diffuseReflection
  | diffuseTransmission
  | specular
  | simpleGlossy
  | measured
  | tint
  | weightedLayer
  deriving Repr, DecidableEq

instance : Named BsdfNode where
  all := [.diffuseReflection, .diffuseTransmission, .specular, .simpleGlossy, .measured, .tint,
    .weightedLayer]
  name
    | .diffuseReflection => "df::diffuse_reflection_bsdf"
    | .diffuseTransmission => "df::diffuse_transmission_bsdf"
    | .specular => "df::specular_bsdf"
    | .simpleGlossy => "df::simple_glossy_bsdf"
    | .measured => "df::measured_bsdf"
    | .tint => "df::tint"
    | .weightedLayer => "df::weighted_layer"

namespace BsdfNode

/-- The building block as it is named in diagnostics. -/
def label : BsdfNode → String
  | .diffuseReflection => "DiffuseReflection"
  | .diffuseTransmission => "DiffuseTransmission"
  | .specular => "Specular"
  | .simpleGlossy => "SimpleGlossy"
  | .measured => "Measured"
  | .tint => "Tint"
  | .weightedLayer => "WeightedLayer"

/-- The building block in the names of runtime functions. -/
def runtimeName : BsdfNode → String
  | .diffuseReflection => "diffuse_reflection"
  | .diffuseTransmission => "diffuse_transmission"
  | .specular => "specular"
  | .simpleGlossy => "simple_glossy"
  | .measured => "measured"
  | .tint => "tint"
  | .weightedLayer => "weighted_layer"

end BsdfNode

/-- An intrinsic function. -/
inductive Intrinsic
  | unary (op : UnaryOp)
  | binary (op : BinaryOp)
  | ternary (op : TernaryOp)
  | construct
  | member (index : Nat)
  | state (query : StateQuery)
  | lookup (what : TextureLookup)
  | resource (query : ResourceQuery)
  | bsdf (node : BsdfNode)
  deriving Repr, DecidableEq

namespace Intrinsic

/-- The intrinsic as it is named in diagnostics. -/
def label : Intrinsic → String
  | .unary op =>
    match op with
    | .neg => "Neg"
    | .not => "Not"
    | .sin => "Sin"
    | .cos => "Cos"
    | .sqrt => "Sqrt"
    | .abs => "Abs"
    | .floor => "Floor"
    | .saturate => "Saturate"
    | .normalize => "Normalize"
    | .length => "Length"
  | .binary op =>
    match op with
    | .add => "Add"
    | .sub => "Sub"
    | .mul => "Mul"
    | .div => "Div"
    | .less => "Less"
    | .lessEqual => "LessEqual"
    | .greater => "Greater"
    | .equal => "Equal"
    | .and => "And"
    | .or => "Or"
    | .min => "Min"
    | .max => "Max"
    | .pow => "Pow"
    | .dot => "Dot"
    | .cross => "Cross"
  | .ternary op =>
    match op with
    | .select => "Select"
    | .clamp => "Clamp"
    | .lerp => "Lerp"
  | .construct => "Construct"
  | .member index => "Member(" ++ toString index ++ ")"
  | .state query => query.label
  | .lookup what => what.label
  | .resource query => query.label
  | .bsdf node => "Bsdf(" ++ node.label ++ ")"

/-- The intrinsics of a family, with their names. -/
def family {α : Type} [Named α] (namePrefix : String) (make : α → Intrinsic) :
    List (String × Intrinsic) :=
  (Named.all : List α).map fun a => (namePrefix ++ Named.name a, make a)

/-- The intrinsics with a fixed name. -/
def table : List (String × Intrinsic) :=
  family "math::" .unary ++ family "math::" .binary ++ family "math::" .ternary
    ++ [("construct", .construct)] ++ family "" .state ++ family "" .lookup
    ++ family "" .resource ++ family "" .bsdf

/-- How the names of member selections begin. -/
def memberPrefix : String := "member:"

/-- The intrinsic of a name.  A member selection names the position of the member. -/
def ofName? (name : String) : Option Intrinsic :=
  match memberPrefix.toList.isPrefixOf? name.toList with
  | some digits => (Options.nat32? (String.ofList digits)).map .member
  | none => table.lookup name

end Intrinsic

end Shading
