import Shading.Graph.Basic
import Shading.Target

/-!
# Diagnostics

The ways in which a compile can fail, and the messages that it leaves behind.

Main definitions:

- `CompileError` is the cause of a failure, `CompileError.message` its wording and
  `CompileError.code` its status code.
- `Message` is one diagnostic with its severity.
- `CompileFailure` is a failure with all diagnostics collected on the way.
-/

namespace Shading

/-- What is wrong with a request. -/
inductive RequestError
  | emptyName
  | noPaths (name : String)
  | graph (cause : GraphError)
  | unitClosed
  | otherTarget (created wanted : TargetKind)
  deriving Repr, DecidableEq

/-- The wording of a request error. -/
def RequestError.message : RequestError → String
  | .emptyName => "function name must not be empty"
  | .noPaths name => s!"switch function '{name}' needs at least one path"
  | .graph cause => cause.message
  | .unitClosed => "link unit already closed"
  | .otherTarget created wanted =>
    "link unit was created for " ++ Named.name created ++ ", not " ++ Named.name wanted

/-- Why a compile failed. -/
inductive CompileError
  | invalidParameters (cause : RequestError)
  | invalidPath (path : String)
  | invalidEnvironmentType (function : String) (found : ValueType)
  | linkFailed
  | backendFailure (name : String)
  | constantRejected (path : String)
  | unsupportedFieldType (path : String) (type : ValueType)
  | capturedParameters (name : String)
  | mixedExecutionContext (path : String) (expected found : ExecutionContext)
  | edfNotSupported (path : String)
  | vdfNotSupported (path : String)
  | unsupportedBsdf (what : String)
  | emptyFragment (name : String)
  | switchFormViolation (name : String)
  deriving Repr, DecidableEq

namespace CompileError

/-- The wording of a compile error. -/
def message : CompileError → String
  | .invalidParameters cause => "invalid parameters: " ++ cause.message
  | .invalidPath path => s!"invalid expression path '{path}'"
  | .invalidEnvironmentType function found =>
    s!"environment function '{function}' must return color or texture_return, got " ++ found.text
  | .linkFailed => "link unit cannot be finalized: no functions were added"
  | .backendFailure name => s!"backend failed while compiling '{name}'"
  | .constantRejected path => s!"field '{path}' is constant and compile_constants is off"
  | .unsupportedFieldType path type =>
    s!"field '{path}' has type " ++ type.text ++ ", which is a distribution or resource type"
  | .capturedParameters name =>
    s!"'{name}' captures parameters, which environment and uniform-state functions cannot"
  | .mixedExecutionContext path expected found =>
    s!"path '{path}' needs the " ++ found.label ++ " context, fragment uses " ++ expected.label
  | .edfNotSupported path =>
    s!"'{path}' is an EDF; only BSDFs can be compiled as distribution functions"
  | .vdfNotSupported path =>
    s!"'{path}' is a VDF; only BSDFs can be compiled as distribution functions"
  | .unsupportedBsdf what => s!"unsupported BSDF '{what}'"
  | .emptyFragment name => s!"fragment '{name}' has neither a body nor root expressions"
  | .switchFormViolation name =>
    s!"fragment '{name}' has a single body; convert it to the switch form before adding roots"

/-- The kind of a compile error as it is named in reports. -/
def label : CompileError → String
  | .invalidParameters _ => "InvalidParameters"
  | .invalidPath _ => "InvalidPath"
  | .invalidEnvironmentType .. => "InvalidEnvironmentType"
  | .linkFailed => "LinkFailed"
  | .backendFailure _ => "BackendFailure"
  | .constantRejected _ => "ConstantRejected"
  | .unsupportedFieldType .. => "UnsupportedFieldType"
  | .capturedParameters _ => "CapturedParameters"
  | .mixedExecutionContext .. => "MixedExecutionContext"
  | .edfNotSupported _ => "EdfNotSupported"
  | .vdfNotSupported _ => "VdfNotSupported"
  | .unsupportedBsdf _ => "UnsupportedBsdf"
  | .emptyFragment _ => "EmptyFragment"
  | .switchFormViolation _ => "SwitchFormViolation"

/-- The status code of a compile error. -/
def code : CompileError → Int
  | .invalidParameters _ => -1
  | .invalidPath _ | .invalidEnvironmentType .. | .linkFailed => -2
  | .backendFailure _ => -3
  | .constantRejected _ => -4
  | .unsupportedFieldType .. => -5
  | .capturedParameters _ => -6
  | .mixedExecutionContext .. => -7
  | .edfNotSupported _ => -8
  | .vdfNotSupported _ => -9
  | .unsupportedBsdf _ => -10
  | .emptyFragment _ | .switchFormViolation _ => -11

end CompileError

/-! ## Messages -/

/-- How grave a message is. -/
inductive Severity
  | error
  | warning
  | info
  deriving Repr, DecidableEq

instance : Named Severity where
  all := [.error, .warning, .info]
  name
    | .error => "error"
    | .warning => "warning"
    | .info => "info"

/-- The severity as it stands in front of a logged message. -/
def Severity.label : Severity → String
  | .error => "Error"
  | .warning => "Warning"
  | .info => "Info"

/-- Whether a message is about the input, or about a failure of the backend. -/
inductive MessageKind
  | compiler
  | internalBackend
  deriving Repr, DecidableEq

instance : Named MessageKind where
  all := [.compiler, .internalBackend]
  name
    | .compiler => "compiler"
    | .internalBackend => "internal_backend"

/-- A diagnostic message. -/
structure Message where
  severity : Severity
  kind : MessageKind
  text : String
  deriving Repr, DecidableEq

namespace Message

/-- An error in the input. -/
def error (text : String) : Message :=
  ⟨.error, .compiler, text⟩

/-- A warning about the input. -/
def warning (text : String) : Message :=
  ⟨.warning, .compiler, text⟩

/-- An error of the backend. -/
def internal (text : String) : Message :=
  ⟨.error, .internalBackend, text⟩

/-- The message as JSON. -/
def toJson (m : Message) : Json :=
  .object [("severity", .ofNamed m.severity), ("kind", .ofNamed m.kind), ("text", .string m.text)]

end Message

/-- A failed compile with every message collected on the way. -/
structure CompileFailure where
  error : CompileError
  messages : List Message
  deriving Repr, DecidableEq

/-- A failure whose only message is the error itself. -/
def CompileFailure.ofError (e : CompileError) : CompileFailure :=
  ⟨e, [.error e.message]⟩

end Shading
