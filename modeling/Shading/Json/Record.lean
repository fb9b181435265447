import Shading.Json.Basic
import Shading.Number.Shortest

/-!
# Reading typed values off JSON

The conventions by which typed values stand in JSON.  A record is an object whose
known keys occur at most once, or an array of its values in declaration order.  A
choice is a tag with a payload: the tag is a member of the payload's own object, or
a key of its own beside the payload, or the single key of an object.

A payload that is kept until its tag is known has to be readable throughout, and what is
inside it is read more freely than what is read straight off a document.

Main definitions:

- `Reading` tells the two ways of reading apart, and `Json.isReadable` says whether a
  value may be kept.

- `Json.record?`, `Json.keyed?` and `Record.get?` read records.
- `Json.tagged?` and `Json.choice?` read choices.
- `Json.nat?`, `Json.int?`, `Json.float32?` and their kin read scalars.
- `Json.ofFloat32` and `Json.ofFloat` write numbers.
- `LoadError` tells a document that is no JSON of the wanted shape from one whose
  content is refused.
-/

namespace Shading

/-- Why a document could not be loaded: its text or shape is wrong, or what it says is
inconsistent. -/
inductive LoadError (ε : Type)
  | json
  | invalid (cause : ε)
  deriving Repr, DecidableEq

/-- How a value is come by: straight off its document, or out of a payload that was kept
until its tag was known. -/
inductive Reading
  | direct
  | kept
  deriving Repr, DecidableEq

namespace Json

mutual

/-- Whether every part of the value stands for something: it has no unreadable part, and
its numbers lie in the range of the 64-bit format. -/
def isReadable : Json → Bool
  | .unreadable => false
  | .number n => n.float?.isSome
  | .array items => areReadable items
  | .object members => haveReadable members
  | _ => true

/-- Whether every value of a list is readable. -/
def areReadable : List Json → Bool
  | [] => true
  | item :: rest => item.isReadable && areReadable rest

/-- Whether the values of all members of a list are readable. -/
def haveReadable : List (String × Json) → Bool
  | [] => true
  | (_, value) :: rest => value.isReadable && haveReadable rest

end

/-! ## Scalars -/

/-- A natural number below a bound. -/
def nat? (bound : Nat) : Json → Option Nat
  | .number n =>
    match n.int? with
    | some i => if 0 ≤ i ∧ i < bound then some i.toNat else none
    | none => none
  | _ => none

/-- A natural number of 8 bits. -/
def nat8? : Json → Option Nat := nat? (Nat.pow 2 8)

/-- A natural number of 32 bits. -/
def nat32? : Json → Option Nat := nat? (Nat.pow 2 32)

/-- A natural number of 64 bits. -/
def nat64? : Json → Option Nat := nat? (Nat.pow 2 64)

/-- A signed number of 32 bits. -/
def int32? : Json → Option Int32
  | .number n =>
    match n.int? with
    | some i => if -2147483648 ≤ i ∧ i ≤ 2147483647 then some (Int32.ofInt i) else none
    | none => none
  | _ => none

/-- A number of the 32-bit format. -/
def float32? : Json → Option Float32
  | .number n => n.float32?
  | _ => none

/-- A number of the 64-bit format. -/
def float? : Json → Option Float
  | .number n => n.float?
  | _ => none

/-- A truth value. -/
def bool? : Json → Option Bool
  | .bool b => some b
  | _ => none

/-- A string. -/
def string? : Json → Option String
  | .string s => some s
  | _ => none

/-- The items of an array. -/
def array? : Json → Option (List Json)
  | .array items => some items
  | _ => none

/-- A list, every item read in the same way. -/
def list? {α : Type} (read : Json → Option α) (j : Json) : Option (List α) := do
  (← j.array?).mapM read

/-- A value that may be null. -/
def option? {α : Type} (read : Json → Option α) : Json → Option (Option α)
  | .null => some none
  | j => (read j).map some

/-- A signed number of 32 bits as JSON. -/
def ofInt32 (n : Int32) : Json := ofInt n.toInt

/-- How numbers of the 32-bit format are laid out. -/
def float32Style : FloatStyle := ⟨-6, 12, .even⟩

/-- How numbers of the 64-bit format are laid out. -/
def floatStyle : FloatStyle := ⟨-5, 15, .even⟩

/-- A number of the 64-bit format; null if it is not finite. -/
def ofFloat (x : Float) : Json :=
  match Float.parts? x with
  | some (negative, m) => .number (floatStyle.numeral BinaryFormat.double negative m)
  | none => .null

/-- A number of the 32-bit format; null if it is not finite. -/
def ofFloat32 (x : Float32) : Json :=
  match Float32.parts? x with
  | some (negative, m) => .number (float32Style.numeral BinaryFormat.single negative m)
  | none => .null

/-- A number of the 32-bit format written with the digits of the 64-bit format. -/
def ofWidened (x : Float32) : Json :=
  ofFloat (Float32.widen x)

end Json

/-! ## Records -/

/-- The members of a record by key; `keyed` says whether the keys were written. -/
structure Record where
  members : List (String × Json)
  keyed : Bool

namespace Record

/-- The member of a key, if it is there. -/
def find? (r : Record) (key : String) : Option Json :=
  r.members.lookup key

/-- The member of a key, which has to be there. -/
def get? {α : Type} (r : Record) (key : String) (read : Json → Option α) : Option α :=
  (r.find? key).bind read

/-- The member of a key, or a default if it is not there. -/
def getD? {α : Type} (r : Record) (key : String) (read : Json → Option α) (default : α) :
    Option α :=
  match r.find? key with
  | none => some default
  | some j => read j

/-- Whether the first one of the members has the given key. -/
def startsWith (r : Record) (key : String) : Bool :=
  r.members.head?.any fun m => m.1 == key

/-- The member of a key that may be null, and that may be left out where keys are
written. -/
def option? {α : Type} (r : Record) (key : String) (read : Json → Option α) : Option (Option α) :=
  match r.find? key with
  | none => if r.keyed then some none else none
  | some j => Json.option? read j

end Record

namespace Json

/-- The members of a record with the given keys.  An object must not repeat one of
the keys, and its other members are not looked at.  An array holds the values in
the order of the keys, and may stop early. -/
def record? (keys : List String) : Json → Option Record
  | .object members =>
    let known := members.filter fun m => keys.contains m.1
    if (known.map (·.1)).Nodup then some ⟨known, true⟩ else none
  | .array items => if items.length ≤ keys.length then some ⟨keys.zip items, false⟩ else none
  | _ => none

/-- The members of a record that has to be an object. -/
def keyed? (keys : List String) : Json → Option Record
  | .object members => record? keys (.object members)
  | _ => none

/-- The value itself, if it may be kept. -/
def keep? (j : Json) : Option Json :=
  if j.isReadable then some j else none

/-- A choice whose tag is a member of the payload, or the first item of it.  The payload
is kept. -/
def tagged? (tag : String) : Json → Option (Json × Json)
  | .object members =>
    match members.filter fun m => m.1 == tag with
    | [(_, name)] => do return (name, ← keep? (.object (members.filter fun m => m.1 != tag)))
    | _ => none
  | .array (name :: rest) => do return (name, ← keep? (.array rest))
  | _ => none

/-- A choice that is written as an object with a single key, or as the bare name
when it has no payload. -/
def choice? : Json → Option (String × Json)
  | .string name => some (name, .null)
  | .object [(name, payload)] => some (name, payload)
  | _ => none

/-- Whether the payload of a tagged choice may belong to a choice without one: any
members, but no items. -/
def isVoid : Json → Bool
  | .object _ => true
  | .array [] => true
  | _ => false

/-- Whether the payload of a bare name is none at all.  A kept one may be an empty
object. -/
def isAbsent : Reading → Json → Bool
  | _, .null => true
  | .kept, .object [] => true
  | _, _ => false

/-- One of finitely many names. -/
def named? {α : Type} (ofName? : String → Option α) (reading : Reading) (j : Json) : Option α := do
  let (name, payload) ← j.choice?
  if isAbsent reading payload then ofName? name else none

end Json

end Shading
