import Shading.Bytes

/-!
# Content digests

A digest of 32 bytes: four lanes of 64 bits, each of which runs the same
multiply-and-xor loop over the bytes from a start of its own.

Main definitions:

- `Digest.lane` is one lane, `Digest.of` the digest of a byte string.
- `Digest.bytes` and `Digest.hex` are its bytes and its text.
-/

namespace Shading

/-- A digest of four lanes. -/
structure Digest where
  lane0 : UInt64
  lane1 : UInt64
  lane2 : UInt64
  lane3 : UInt64
  deriving Repr, DecidableEq

namespace Digest

/-- The start of a lane with a seed of zero. -/
def basis : UInt64 := 0xcbf29ce484222325

/-- The factor of the loop. -/
def prime : UInt64 := 0x00000100000001b3

/-- Takes one more byte into a lane. -/
def step (hash : UInt64) (byte : UInt8) : UInt64 :=
  (hash ^^^ byte.toUInt64) * prime

/-- The lane of a seed over a byte string. -/
def lane (seed : UInt64) (bytes : Bytes) : UInt64 :=
  bytes.foldl step (basis ^^^ seed)

/-- The digest of a byte string. -/
def of (bytes : Bytes) : Digest where
  lane0 := lane 0x0000000000000000 bytes
  lane1 := lane 0x9e3779b97f4a7c15 bytes
  lane2 := lane 0xc2b2ae3d27d4eb4f bytes
  lane3 := lane 0x165667b19e3779f9 bytes

/-- The digest of a text in UTF-8. -/
def ofText (s : String) : Digest :=
  of (Bytes.ofText s)

/-- The bytes of a digest, lane by lane. -/
def bytes (d : Digest) : Bytes :=
  Bytes.ofWord64 d.lane0 ++ Bytes.ofWord64 d.lane1 ++ Bytes.ofWord64 d.lane2
    ++ Bytes.ofWord64 d.lane3

/-- The digest in hexadecimal. -/
def hex (d : Digest) : String :=
  Bytes.hex d.bytes

end Digest

end Shading
