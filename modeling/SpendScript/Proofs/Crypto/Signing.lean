import SpendScript.Crypto.SecretKey
import SpendScript.Proofs.Crypto.Der
import SpendScript.Proofs.Crypto.Ecdsa
import SpendScript.Proofs.Crypto.PublicKey

/-!
# Signatures in code

Signing makes a pair of numbers, writes it as a byte string and puts the byte of the signature hash
type behind it.  Checking takes all of this apart again: the last byte, the two numbers and the
public key are what they were.

* `ScriptSignature.isValid_of_valid` : a valid signature is accepted as it is written;
* `SecretKey.publicKey_eq` : a public key is the multiple of the generator, which is a point;
* `SecretKey.exists_valid` : what a secret key makes is valid for its public key.
-/

namespace SpendScript

open Curve

namespace Digest

theorem ofBytes?_bytes (digest : Digest) : ofBytes? digest.bytes = some digest :=
  dif_pos digest.length_bytes

theorem ofBytes?_eq_none {bytes : Bytes} (h : bytes.length ≠ 32) : ofBytes? bytes = none :=
  dif_neg h

theorem ofBytes?_eq_some_iff {bytes : Bytes} {digest : Digest} :
    ofBytes? bytes = some digest ↔ digest.bytes = bytes := by
  constructor
  · intro h
    unfold ofBytes? at h
    split at h
    · rw [← Option.some.inj h]
    · exact absurd h (by simp)
  · rintro rfl
    exact digest.ofBytes?_bytes

end Digest

namespace ScriptSignature

variable {q : Point} {r s : Nat} {digest : Digest} {publicKey : Bytes}

/-- **A signature is split where it was put together.** -/
theorem split?_concat (body : Bytes) (type : SigHash) :
    split? (body ++ [type.toByte]) = some (body, type) := by
  simp [split?, SigHash.ofByte?_toByte]

theorem read?_write_of_valid {z : Nat} (h : Ecdsa.Valid q z r s) :
    Der.read? n (Der.write r s) = some (r, s) := by
  have hs : s < n := Nat.lt_of_le_of_lt h.s_le (Nat.div_lt_self Ecdsa.n_pos Nat.one_lt_two)
  exact Der.read?_write (by decide) h.r_lt hs

/-- **A valid signature is accepted as it is written.** -/
theorem isValid_of_valid (hq : PublicKey.read? publicKey = some q)
    (h : Ecdsa.Valid q (digestNumber digest) r s) (type : SigHash) :
    isValid publicKey (write (r, s) type) digest.bytes = true := by
  rw [isValid, write, split?_concat, hq, digest.ofBytes?_bytes]
  simp only [read?_write_of_valid h]
  exact h.verify

end ScriptSignature

namespace SecretKey

variable (key : SecretKey)

/-- **A public key is the multiple of the generator**, and a point. -/
theorem publicKey_eq : ∃ q, coordinates? (key.value • base) = some q ∧
    key.publicKey = PublicKey.write q := by
  have hne : key.value • base ≠ 0 :=
    mt nsmul_base_eq_zero_iff.1 (Modular.natCast_ne_zero key.pos key.lt_order)
  obtain ⟨q, hq⟩ := Option.ne_none_iff_exists'.1 (mt coordinates?_eq_none_iff.1 hne)
  refine ⟨q, hq, ?_⟩
  rw [publicKey, multiply?_eq coordinates?_base, hq]
  rfl

theorem sign_bytes (digest : Digest) (type : SigHash) :
    key.sign digest.bytes type = .ok (ScriptSignature.sign key.value digest type) := by
  rw [sign, digest.ofBytes?_bytes]

/-- **What a secret key makes is valid for its public key**, unless no nonce was found. -/
theorem exists_valid {digest : Digest}
    (hnonce : Ecdsa.sign key.value (ScriptSignature.digestNumber digest) ≠ (0, 0)) :
    ∃ q r s, PublicKey.read? key.publicKey = some q ∧
      Ecdsa.Valid q (ScriptSignature.digestNumber digest) r s ∧
      ∀ type, key.sign digest.bytes type = .ok (ScriptSignature.write (r, s) type) := by
  obtain ⟨q, hq, hkey⟩ := key.publicKey_eq
  have hread : PublicKey.read? key.publicKey = some q := by
    rw [hkey]
    exact PublicKey.read?_write (isOnCurve_iff.2 ⟨_, hq⟩)
  have hvalid := Ecdsa.sign_spec hq hnonce
  have hsign : ∀ type, key.sign digest.bytes type = .ok (ScriptSignature.write
      (Ecdsa.sign key.value (ScriptSignature.digestNumber digest)) type) :=
    key.sign_bytes digest
  -- the pair is made a variable, so that nothing computes it
  generalize Ecdsa.sign key.value (ScriptSignature.digestNumber digest) = made at hvalid hsign
  obtain ⟨r, s⟩ := made
  exact ⟨q, r, s, hread, hvalid, hsign⟩

/-- **Only a digest of the wrong length is not signed.** -/
theorem sign_eq_error_iff (digest : Bytes) (type : SigHash) (error : SigningError) :
    key.sign digest type = .error error ↔
      digest.length ≠ 32 ∧ error = .badDigest digest.length := by
  by_cases hlength : digest.length = 32
  · have hok := key.sign_bytes ⟨digest, hlength⟩ type
    simp [hok, hlength]
  · rw [sign, Digest.ofBytes?_eq_none hlength]
    simp [hlength, eq_comm]

end SecretKey

end SpendScript
