import Shading.Diagnostic

/-!
# Failures of lowering

Main definitions:

- `LowerError` is what can go wrong while expressions are lowered.
- `LowerFailure` is such an error in a routine, with the message that it leaves.
-/

namespace Shading

/-- Why an expression could not be lowered. -/
inductive LowerError
  | noRootList (function : String)
  | noSingleBody (function : String)
  | noBody (function : String)
  | auxWithoutBody (index : Nat)
  | missingNode (id : Nat)
  | parameterNotInBlock (index : Nat)
  | argumentNotBound (index : Nat)
  | parameterNotCaptured (index : Nat)
  | argumentNotLowered (id : Nat)
  | rootNotLowered (id : Nat)
  | tooManyParts (type : ValueType)
  | strayLambdaResult (index : Nat)
  | unresolvedCall (name : String)
  | nestedTooDeep (name : String)
  | calleeWithoutBody (name : String)
  | argumentCount (name : String) (taken passed : Nat)
  | arity (name : String) (expected found : Nat)
  | construction (type : ValueType) (count : Nat)
  | notInEnvironment (name : String)
  | onlyInEnvironment
  | textureCoordinateIndex
  | noTextureArgument (name : String)
  | strayDistribution (name : String)
  | notACall (id : Nat)
  | unsupportedBsdf (name : String)
  | tintArguments
  | layerArguments
  | leafArguments (name : String)
  deriving Repr, DecidableEq

namespace LowerError

/-- How deep calls of fragments may nest. -/
def nestingLimit : Nat := 64

/-- The wording of a lowering error. -/
def message : LowerError → String
  | .noRootList function => s!"switch function '{function}' has no root list"
  | .noSingleBody function => s!"function '{function}' needs a single body"
  | .noBody function => s!"distribution function '{function}' has no body"
  | .auxWithoutBody index => s!"auxiliary fragment {index} has no body"
  | .missingNode id => "missing node " ++ nodeText id
  | .parameterNotInBlock index => s!"parameter {index} is not in the argument block"
  | .argumentNotBound index => s!"call binds no argument {index}"
  | .parameterNotCaptured index => s!"parameter {index} used without captured arguments"
  | .argumentNotLowered id => "argument " ++ nodeText id ++ " not lowered"
  | .rootNotLowered id => "root " ++ nodeText id ++ " not lowered"
  | .tooManyParts type => "constant has more children than " ++ type.text
  | .strayLambdaResult index => s!"lambda_result {index} outside a distribution function"
  | .unresolvedCall name => s!"unresolved call '{name}'"
  | .nestedTooDeep name => s!"call '{name}' nests deeper than {nestingLimit} fragments"
  | .calleeWithoutBody name => s!"called fragment '{name}' has no single body"
  | .argumentCount name taken passed =>
    s!"'{name}' takes {taken} arguments, call passes {passed}"
  | .arity name expected found => s!"'{name}' expects {expected} arguments, got {found}"
  | .construction type count => "cannot construct " ++ type.text ++ s!" from {count} arguments"
  | .notInEnvironment name => s!"{name} is not available in environment functions"
  | .onlyInEnvironment => "state::direction is only available in environment functions"
  | .textureCoordinateIndex => "state::texture_coordinate needs a constant index"
  | .noTextureArgument name => s!"{name} needs a texture argument"
  | .strayDistribution name =>
    s!"{name} constructs a distribution and can only appear in distribution functions"
  | .notACall id => "distribution node " ++ nodeText id ++ " is not a call"
  | .unsupportedBsdf name => s!"unsupported BSDF '{name}'"
  | .tintArguments => "df::tint takes a color and one BSDF"
  | .layerArguments => "df::weighted_layer takes a weight and two BSDFs"
  | .leafArguments name => s!"'{name}' does not take BSDF arguments"

/-- Whether the error is the author's to mend.  The others arise from fragments that are
put together wrongly, and leave no message. -/
def isReported : LowerError → Bool
  | .noRootList _ | .noSingleBody _ | .noBody _ | .auxWithoutBody _ | .missingNode _
  | .parameterNotInBlock _ | .argumentNotBound _ | .parameterNotCaptured _
  | .argumentNotLowered _ | .rootNotLowered _ | .tooManyParts _ => false
  | _ => true

end LowerError

/-- A lowering error in a routine. -/
structure LowerFailure where
  routine : String
  error : LowerError
  deriving Repr, DecidableEq

/-- The message that a failure leaves, if it is reported. -/
def LowerFailure.messages (f : LowerFailure) : List Message :=
  if f.error.isReported then [.error (f.routine ++ ": " ++ f.error.message)] else []

end Shading
