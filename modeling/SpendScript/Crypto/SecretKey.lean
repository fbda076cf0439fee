import SpendScript.Bytes.Hex
import SpendScript.Crypto.ScriptSignature
import SpendScript.Text.Words

/-!
# Secret keys

A secret key is a number above zero and below the order of the group, given by thirty-two bytes
in hexadecimal.
-/

namespace SpendScript

/-- Why nothing was signed. -/
inductive SigningError
  /-- The text is no secret key. -/
  | badKey
  /-- The digest has the wrong number of bytes. -/
  | badDigest (length : Nat)
  deriving Repr, DecidableEq

/-- The sentence that reports why nothing was signed. -/
def SigningError.message : SigningError → String
  | .badKey => "Invalid private key"
  | .badDigest length => s!"Invalid message digest: expected 32 bytes, got {length}"

/-- A secret key. -/
structure SecretKey where
  /-- The number. -/
  value : Nat
  /-- It is not zero. -/
  pos : 0 < value
  /-- It is below the order of the group. -/
  lt_order : value < Curve.n

namespace SecretKey

/-- The secret key that some bytes spell. -/
def ofBytes? (bytes : Bytes) : Option SecretKey :=
  if h : bytes.length = 32 ∧ 0 < bytes.toNatBE ∧ bytes.toNatBE < Curve.n then
    some ⟨bytes.toNatBE, h.2.1, h.2.2⟩
  else none

/-- Reads a secret key, with blanks around it. -/
def read (text : List Char) : Except SigningError SecretKey :=
  match Hex.decode (Text.trim text) with
  | .ok bytes => match ofBytes? bytes with
    | some key => .ok key
    | none => .error .badKey
  | .error _ => .error .badKey

/-- The public key, in thirty-three bytes. -/
def publicKey (key : SecretKey) : Bytes :=
  ((Curve.multiply? key.value Curve.generator).map PublicKey.write).getD []

/-- Signs some bytes, which have to be a digest. -/
def sign (key : SecretKey) (digest : Bytes) (type : SigHash) : Except SigningError Bytes :=
  match Digest.ofBytes? digest with
  | some digest => .ok (ScriptSignature.sign key.value digest type)
  | none => .error (.badDigest digest.length)

end SecretKey

end SpendScript
