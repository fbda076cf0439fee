import SpendScript.Crypto.Der
import SpendScript.Crypto.Ecdsa
import SpendScript.Crypto.PublicKey
import SpendScript.Crypto.Ripemd160
import SpendScript.Crypto.Sha1
import SpendScript.Crypto.SigHash
import SpendScript.Crypto.Primitives

/-!
# Signatures in code

A signature in code is a signature as a byte string with the byte of a signature hash type behind
it.  Checking never fails: whatever is malformed is no valid signature.
-/

namespace SpendScript

namespace ScriptSignature

/-- The signature without its last byte, and what that byte means. -/
def split? (signature : Bytes) : Option (Bytes × SigHash) := do
  let last ← signature.getLast?
  let type ← SigHash.ofByte? last
  return (signature.dropLast, type)

/-- The number that a digest stands for in a signature. -/
def digestNumber (digest : Digest) : Nat :=
  digest.bytes.toNatBE % Curve.n

/-- Whether a signature over a digest belongs to a public key. -/
def isValid (publicKey signature digest : Bytes) : Bool :=
  match split? signature, PublicKey.read? publicKey, Digest.ofBytes? digest with
  | some (body, _), some q, some digest =>
    match Der.read? Curve.n body with
    | some (r, s) => Ecdsa.verify q (digestNumber digest) r s
    | none => false
  | _, _, _ => false

/-- A signature as a byte string, with the byte of its type behind it. -/
def write (signature : Nat × Nat) (type : SigHash) : Bytes :=
  Der.write signature.1 signature.2 ++ [type.toByte]

/-- Makes a signature with a secret key. -/
def sign (d : Nat) (digest : Digest) (type : SigHash) : Bytes :=
  write (Ecdsa.sign d (digestNumber digest)) type

end ScriptSignature

/-- The functions that code calls by default. -/
def Primitives.standard : Primitives where
  sha256 := Sha256.hash
  sha1 := Sha1.hash
  ripemd160 := Ripemd160.hash
  signedBy := ScriptSignature.isValid

end SpendScript
