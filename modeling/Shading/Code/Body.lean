import Shading.Options
import Shading.Program.Container
import Shading.Shader.Module

/-!
# Code bodies

The code that is generated from a program: the program itself with its listing, a text,
or a binary container.

Main definitions:

- `CodeBody` is the type of code bodies, `CodeBody.bytes` its bytes.
- `Program.emit` generates the code for a target.
- `ShaderCheck` is a check of shader text from outside, and `Program.emitChecked` generates
  code that has passed it.
-/

namespace Shading

/-- Generated code. -/
inductive CodeBody
  | native (program : Program)
  | text (format : OutputFormat) (text : String)
  | binary (bytes : Bytes)
  deriving DecidableEq

namespace CodeBody

/-- The code as bytes; of a program that is kept, the bytes of its listing. -/
def bytes : CodeBody → Bytes
  | .native p => Bytes.ofText p.listing
  | .text _ s => Bytes.ofText s
  | .binary b => b

/-- The number of bytes. -/
def size (b : CodeBody) : Nat :=
  b.bytes.length

/-- The program that is kept in memory. -/
def native? : CodeBody → Option Program
  | .native p => some p
  | _ => none

end CodeBody

/-- Code with the signatures of its functions.  Shader text has a version that stands on its
own, with placeholders for the runtime functions, by which it can be checked. -/
structure Emitted where
  body : CodeBody
  prototypes : List String
  standalone : Option String := none
  deriving DecidableEq

/-- A check of shader text from outside.  It is given a text that stands on its own and the
names of the functions in it, and says why it refuses the text. -/
class ShaderCheck where
  refusal? : (source : String) → (functions : List String) → Option String

/-- The check that refuses nothing, where no other one is given. -/
instance (priority := low) ShaderCheck.accepting : ShaderCheck :=
  ⟨fun _ _ => none⟩

/-- Why code is refused.  Only shader text is checked. -/
def Emitted.refusal? [ShaderCheck] (code : Emitted) (functions : List String) :
    Option ShaderError :=
  code.standalone.bind fun source => (ShaderCheck.refusal? source functions).map .refused

namespace TargetKind

/-- The layout of argument blocks and read-only data. -/
def rules : TargetKind → LayoutRules
  | .gpu => .gpuStorage
  | .native | .portableIr => .scalar

/-- Whether large constants go into the read-only data: if the option says so, and always
in link units for targets other than the host. -/
def useRoSegment (target : TargetKind) (o : Options) (linkUnit : Bool) : Bool :=
  o.enableRoSegment || (linkUnit && target ≠ .native)

end TargetKind

namespace Program

/-- The code of a program that does not depend on the target. -/
def emitPortable (p : Program) (format : OutputFormat) : Emitted :=
  let body := match format with
    | .portableIrBinary => .binary p.encode
    | .assembly | .portableIr => .text .portableIr p.listing
  { body, prototypes := p.routines.map Routine.prototype }

/-- The code of a program for a target. -/
def emit (p : Program) (target : TargetKind) (format : OutputFormat) : Except ShaderError Emitted :=
  match target, format with
  | .native, _ => .ok { body := .native p, prototypes := p.routines.map Routine.prototype }
  | .gpu, .assembly =>
    p.shader.map fun m => ⟨.text .assembly m.source, m.prototypes, some m.withStubs⟩
  | _, _ => .ok (p.emitPortable format)

/-- The code of a program for a target, which is checked if the options say so. -/
def emitChecked [ShaderCheck] (p : Program) (target : TargetKind) (o : Options) :
    Except ShaderError Emitted := do
  let code ← p.emit target o.outputFormat
  if o.validateOutput then
    if let some e := code.refusal? (p.routines.map (·.name)) then throw e
  return code

end Program

end Shading
