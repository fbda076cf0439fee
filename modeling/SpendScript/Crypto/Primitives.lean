import SpendScript.Opcode.Basic

/-!
# What code may ask of cryptography

The machine knows of hash functions and signatures only what stands in a record of primitives,
so that every statement about runs holds whatever they are.
-/

namespace SpendScript

/-- A message digest of thirty-two bytes. -/
structure Digest where
  /-- The bytes of the digest. -/
  bytes : Bytes
  /-- There are thirty-two of them. -/
  length_bytes : bytes.length = 32
  deriving DecidableEq

namespace Digest

/-- The digest of zeros. -/
def zero : Digest := ⟨List.replicate 32 0, rfl⟩

/-- Thirty-two bytes as a digest. -/
def ofBytes? (bytes : Bytes) : Option Digest :=
  if h : bytes.length = 32 then some ⟨bytes, h⟩ else none

end Digest

/-- The cryptographic functions that code can call. -/
structure Primitives where
  /-- SHA-256. -/
  sha256 : Bytes → Bytes
  /-- SHA-1. -/
  sha1 : Bytes → Bytes
  /-- RIPEMD-160. -/
  ripemd160 : Bytes → Bytes
  /-- Whether a signature over a digest belongs to a public key. -/
  signedBy : (publicKey signature digest : Bytes) → Bool

namespace Primitives

variable (p : Primitives)

/-- RIPEMD-160 of SHA-256. -/
def hash160 (bytes : Bytes) : Bytes := p.ripemd160 (p.sha256 bytes)

/-- SHA-256 of SHA-256. -/
def hash256 (bytes : Bytes) : Bytes := p.sha256 (p.sha256 bytes)

/-- The function of a hash word. -/
def hash : HashWord → Bytes → Bytes
  | .ripemd160 => p.ripemd160
  | .sha1 => p.sha1
  | .sha256 => p.sha256
  | .hash160 => p.hash160
  | .hash256 => p.hash256

end Primitives

end SpendScript
