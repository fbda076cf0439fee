import SpendScript.Command.Execute
import SpendScript.Proofs.Crypto.LowForm

/-!
# What is signed is accepted

A secret key signs every digest of thirty-two bytes, and the command prints what the key signed.
The signature is accepted for the public key, which is printed with it.

* `SecretKey.sign_accepted` : what a secret key signs is accepted for its public key;
* `Command.sign_accepted_of_read` : and so is what the command prints.
-/

namespace SpendScript

open ScriptSignature

namespace Ecdsa

/-- The first nonce for the key one and the number zero.  The hashes are computed one after another,
because each of them takes the bytes of the ones before it apart. -/
theorem nonce_one_zero :
    (NonceState.ofSeed (Bytes.ofNatBE 32 1 ++ Bytes.ofNatBE 32 0)).next.block = Bytes.ofNatBE 32
      0x010497d369b3d525ca15ec29c104a694210bb59ff6cabfc10afe6df0283896df := by
  let seed := Bytes.ofNatBE 32 1 ++ Bytes.ofNatBE 32 0
  let key₁ := Bytes.ofNatBE 32 0xac1077c2cdd7ea3c564277908253f03cb84b409a174f5b23066111b3966e9a69
  let block₁ := Bytes.ofNatBE 32 0x161c307475397945d974689381d26b74d1c6ee39ccb33b25a89df6507612f471
  let key₂ := Bytes.ofNatBE 32 0x47a9905e12a565c913f97badf5a62f87fc047a202d0acefd8a14919958065971
  let block₂ := Bytes.ofNatBE 32 0x6510f939bad19793248d396e4feefa03ab2bcfb1b718f4d818f60b36d5b0a009
  have hkey₁ : Hmac.sha256 (List.replicate 32 0) (List.replicate 32 1 ++ 0 :: seed) = key₁ := by
    decide +kernel
  have hblock₁ : Hmac.sha256 key₁ (List.replicate 32 1) = block₁ := by decide +kernel
  have hkey₂ : Hmac.sha256 key₁ (block₁ ++ 1 :: seed) = key₂ := by decide +kernel
  have hblock₂ : Hmac.sha256 key₂ block₁ = block₂ := by decide +kernel
  rw [NonceState.ofSeed]
  simp only [NonceState.mix, NonceState.next]
  rw [hkey₁, hblock₁, hkey₂, hblock₂]
  decide +kernel

end Ecdsa

namespace SecretKey

/-- **What is signed is accepted.**  A digest is signed exactly if it has thirty-two bytes.  The
signature ends with the byte of its type, in front of which stand two numbers in their distinguished
form; both parts and the two numbers, the second of them the smaller one of two, are read as they
were written, and the signature is accepted for the public key.  So it is with the larger one of the
two in the place of the second number.  It is supposed that some nonce gives a signature. -/
theorem sign_accepted (key : SecretKey) (digest : Bytes) (type : SigHash)
    (hnonce : ∀ d : Digest, d.bytes = digest → Ecdsa.sign key.value (digestNumber d) ≠ (0, 0)) :
    (∀ error, key.sign digest type = .error error ↔
      digest.length ≠ 32 ∧ error = .badDigest digest.length) ∧
    (digest.length = 32 → ∃ signature, key.sign digest type = .ok signature ∧
      signature.getLast? = some type.toByte ∧
      (∃ r s, (0 < r ∧ r < Curve.n) ∧ (0 < s ∧ s ≤ Curve.n / 2) ∧
        signature = Der.write r s ++ [type.toByte] ∧ Der.Distinguished r s (Der.write r s) ∧
        split? signature = some (Der.write r s, type) ∧
        Der.read? Curve.n (Der.write r s) = some (r, s) ∧
        isValid key.publicKey (Der.write r (Curve.n - s) ++ [type.toByte]) digest = true) ∧
      isValid key.publicKey signature digest = true) := by
  refine ⟨fun error => key.sign_eq_error_iff digest type error, fun hlength => ?_⟩
  obtain ⟨d, rfl⟩ : ∃ d : Digest, d.bytes = digest := ⟨⟨digest, hlength⟩, rfl⟩
  obtain ⟨q, r, s, hread, hvalid, hsign⟩ := key.exists_valid (hnonce d rfl)
  have hr : 0 < r ∧ r < Curve.n := ⟨hvalid.r_pos, hvalid.r_lt⟩
  have hs : 0 < s ∧ s < Curve.n :=
    ⟨hvalid.s_pos, Nat.lt_of_le_of_lt hvalid.s_le (Nat.div_lt_self Ecdsa.n_pos Nat.one_lt_two)⟩
  have hflag : type.toByte ∈ SigHash.flags := SigHash.mem_flags_iff.2 ⟨type, rfl⟩
  have haccepted : isValid key.publicKey (Der.write r s ++ [type.toByte]) d.bytes = true :=
    isValid_of_valid hread hvalid type
  have hbound : Curve.n ≤ Bytes.bound 32 := by decide
  refine ⟨write (r, s) type, hsign type, List.getLast?_concat, ?_, haccepted⟩
  refine ⟨r, s, hr, ⟨hvalid.s_pos, hvalid.s_le⟩, rfl, ?_, split?_concat _ type,
    read?_write_of_valid hvalid, ?_⟩
  · exact Der.distinguished_write (Nat.lt_of_lt_of_le hr.2 hbound)
      (Nat.lt_of_lt_of_le hs.2 hbound)
  · rw [isValid_write_sub_iff hr hs hflag, ← isValid_write_iff hr hs hflag]
    exact haccepted

/-- The first key signs the digest of zeros. -/
theorem sign_accepted_one : ∃ key : SecretKey, key.value = 1 ∧ Ecdsa.sign 1 0 ≠ (0, 0) ∧
    ∃ signature, key.sign Digest.zero.bytes ⟨.single, true⟩ = .ok signature ∧
      (∃ r s, Der.Distinguished r s signature.dropLast) ∧ signature.getLast? = some 0x83 ∧
      isValid key.publicKey signature Digest.zero.bytes = true := by
  have hnonce : Ecdsa.sign 1 0 ≠ (0, 0) := by
    refine Ecdsa.sign_ne_zero ?_
    rw [Ecdsa.nonce_one_zero, Bytes.toNatBE_ofNatBE (by decide)]
    decide +kernel
  have hnonce' : ∀ d : Digest, d.bytes = Digest.zero.bytes →
      Ecdsa.sign 1 (digestNumber d) ≠ (0, 0) := by
    intro d hd
    have hzero : digestNumber d = 0 := by
      rw [digestNumber, hd]
      decide
    rw [hzero]
    exact hnonce
  obtain ⟨-, haccepted⟩ :=
    sign_accepted ⟨1, Nat.one_pos, Curve.prime_n.one_lt⟩ Digest.zero.bytes ⟨.single, true⟩ hnonce'
  obtain ⟨signature, hsign, hlast, ⟨r, s, -, -, hbody, hform, -⟩, hvalid⟩ :=
    haccepted Digest.zero.length_bytes
  have hwritten : signature.dropLast = Der.write r s := by rw [hbody, List.dropLast_concat]
  exact ⟨_, rfl, hnonce, signature, hsign, ⟨r, s, hwritten ▸ hform⟩, hlast, hvalid⟩

end SecretKey

namespace Command

/-- **What the command prints is accepted.**  If the text is a secret key, the command prints the
public key and a signature that is accepted for it. -/
theorem sign_accepted_of_read {text : String} {key : SecretKey} {digest : Digest}
    (hkey : SecretKey.read text.toList = .ok key)
    (hnonce : Ecdsa.sign key.value (digestNumber digest) ≠ (0, 0)) (type : SigHash) (json : Bool) :
    ∃ signature, isValid key.publicKey signature digest.bytes = true ∧
      Command.sign text digest type json = .ok ⟨
        if json then document (Report.signatureValue signature key.publicKey type.name)
        else Report.signature signature key.publicKey, none⟩ := by
  obtain ⟨q, r, s, hread, hvalid, hsign⟩ := key.exists_valid hnonce
  refine ⟨write (r, s) type, isValid_of_valid hread hvalid type, ?_⟩
  rw [Command.sign, hkey]
  simp only [Except.mapError, bind, Except.bind, hsign type]
  cases json <;> rfl

end Command

end SpendScript
