import Shading.Json.Parser
import Shading.Program.Json

/-!
# The binary container

A program as bytes: a mark, the version of the format, and the program as JSON text.

Main definitions:

- `Program.encode` writes a container, `Program.decode` reads one.
- `ContainerError` is what can be wrong with a container.
-/

namespace Shading

/-- Why a container could not be read. -/
inductive ContainerError
  | notAContainer
  | unsupportedVersion (version : Nat)
  | corruptPayload
  deriving Repr, DecidableEq

/-- The wording of a container error. -/
def ContainerError.message : ContainerError → String
  | .notAContainer => "not a portable ir container"
  | .unsupportedVersion version => s!"unsupported portable ir version {version}"
  | .corruptPayload => "corrupt portable ir payload"

namespace Program

/-- The mark with which a container begins. -/
def containerMark : Bytes :=
  Bytes.ofText "NFIR"

/-- The version of the format. -/
def containerVersion : Nat := 1

/-- The bytes in front of the payload. -/
def containerHeader : Bytes :=
  containerMark ++ Bytes.ofWord32 (UInt32.ofNat containerVersion)

/-- The payload of a container. -/
def payload (p : Program) : String :=
  p.toJson.text

/-- The container of a program. -/
def encode (p : Program) : Bytes :=
  containerHeader ++ Bytes.ofText p.payload

/-- The program in a container. -/
def decode (bytes : Bytes) : Except ContainerError Program :=
  if bytes.length < 8 ∨ bytes.take 4 ≠ containerMark then .error .notAContainer
  else
    let version := Bytes.toNat ((bytes.drop 4).take 4)
    if version ≠ containerVersion then .error (.unsupportedVersion version)
    else
      match (Json.parseBytes? (bytes.drop 8)).bind Program.ofJson? with
      | some p => .ok p
      | none => .error .corruptPayload

end Program

end Shading
