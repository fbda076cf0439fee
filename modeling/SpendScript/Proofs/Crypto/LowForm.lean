import SpendScript.Proofs.Crypto.Signing

/-!
# Both forms of a signature

Of the two signatures `(r, s)` and `(r, n - s)` one has the smaller second number, and either is
brought to that form before it is checked.  As byte strings they may differ in their lengths and in
the zeros in front, but each is read as its own pair; and the last byte says only what a signature
covers, not whether it is valid.

* `SigHash.mem_flags_iff` : the bytes that can stand behind a signature;
* `ScriptSignature.isValid_concat_iff` : when a signature with such a byte behind it is accepted;
* `ScriptSignature.isValid_forms` : so both forms are accepted alike, whatever the byte is.
-/

namespace SpendScript

open Curve

/-! ### The last byte -/

namespace SigHash

/-- The bytes that stand for a signature hash type. -/
def flags : List UInt8 := [0x01, 0x02, 0x03, 0x81, 0x82, 0x83]

variable {flag : UInt8}

theorem mem_every (type : SigHash) : type ∈ every := by
  obtain ⟨outputs, anyone⟩ := type
  cases outputs <;> cases anyone <;> decide

theorem mem_flags_iff : flag ∈ flags ↔ ∃ type : SigHash, type.toByte = flag := by
  have hflags : flags = every.map toByte := by decide
  rw [hflags, List.mem_map]
  constructor
  · rintro ⟨type, -, htype⟩
    exact ⟨type, htype⟩
  · rintro ⟨type, htype⟩
    exact ⟨type, mem_every type, htype⟩

theorem ofByte?_eq_none (h : flag ∉ flags) : ofByte? flag = none := by
  rw [ofByte?, List.find?_eq_none]
  intro type _ htype
  exact h (mem_flags_iff.2 ⟨type, beq_iff_eq.1 htype⟩)

end SigHash

/-! ### Pairs of numbers -/

namespace Ecdsa

variable {q : Point} {z r s : Nat}

theorem lowS_eq_min (h : s < n) : lowS s = min s (n - s) := by
  have hodd : n % 2 = 1 := by decide
  unfold lowS
  split <;> omega

theorem verify_iff (hr : 0 < r) (hs : 0 < s) (hlt : s < n) :
    verify q z r s = true ↔ holds q z r (min s (n - s)) = true := by
  have hr' : r ≠ 0 := Nat.ne_of_gt hr
  have hs' : s ≠ 0 := Nat.ne_of_gt hs
  simp [verify, hr', hs', lowS_eq_min hlt]

end Ecdsa

namespace ScriptSignature

variable {publicKey digest body : Bytes} {flag : UInt8} {r s : Nat}

/-- The key is a point and the digest has the right length, and for them the equation of the pair
holds in the form with the smaller second number. -/
def Accepted (publicKey digest : Bytes) (r s : Nat) : Prop :=
  ∃ (q : Point) (d : Digest), PublicKey.read? publicKey = some q ∧ d.bytes = digest ∧
    Ecdsa.holds q (digestNumber d) r (min s (n - s)) = true

/-- Both forms of a signature have the same form with the smaller second number. -/
theorem accepted_sub (h : s < n) :
    Accepted publicKey digest r (n - s) ↔ Accepted publicKey digest r s := by
  have hmin : min (n - s) (n - (n - s)) = min s (n - s) := by omega
  rw [Accepted, hmin, Accepted]

/-- **When a signature is accepted** that is read as a pair of numbers. -/
theorem isValid_concat_iff (hbody : Der.read? n body = some (r, s)) (hr : 0 < r) (hs : 0 < s)
    (hlt : s < n) (hflag : flag ∈ SigHash.flags) :
    isValid publicKey (body ++ [flag]) digest = true ↔ Accepted publicKey digest r s := by
  obtain ⟨type, rfl⟩ := SigHash.mem_flags_iff.1 hflag
  rw [isValid, split?_concat, Accepted]
  constructor
  · intro h
    split at h
    · rename_i q d hsplit hq hd
      obtain ⟨rfl, -⟩ := Prod.mk.inj (Option.some.inj hsplit)
      simp only [hbody] at h
      exact ⟨q, d, hq, Digest.ofBytes?_eq_some_iff.1 hd, (Ecdsa.verify_iff hr hs hlt).1 h⟩
    · exact absurd h (by simp)
  · rintro ⟨q, d, hq, rfl, hholds⟩
    simp only [hq, d.ofBytes?_bytes, hbody]
    exact (Ecdsa.verify_iff hr hs hlt).2 hholds

/-- **No other byte can stand behind a signature.** -/
theorem isValid_of_not_mem_flags (h : flag ∉ SigHash.flags) :
    isValid publicKey (body ++ [flag]) digest = false := by
  have hsplit : split? (body ++ [flag]) = none := by
    simp [split?, SigHash.ofByte?_eq_none h]
  rw [isValid, hsplit]

theorem isValid_write_iff (hr : 0 < r ∧ r < n) (hs : 0 < s ∧ s < n) (hflag : flag ∈ SigHash.flags) :
    isValid publicKey (Der.write r s ++ [flag]) digest = true ↔ Accepted publicKey digest r s :=
  isValid_concat_iff (Der.read?_write (by decide) hr.2 hs.2) hr.1 hs.1 hs.2 hflag

theorem isValid_write_sub_iff (hr : 0 < r ∧ r < n) (hs : 0 < s ∧ s < n)
    (hflag : flag ∈ SigHash.flags) :
    isValid publicKey (Der.write r (n - s) ++ [flag]) digest = true ↔
      Accepted publicKey digest r s := by
  have hsub : 0 < n - s ∧ n - s < n := by omega
  rw [isValid_write_iff hr hsub hflag, accepted_sub hs.2]

/-- **Both forms of a signature are accepted alike.**  Whatever the bytes of the key and of the
digest are, the pair `(r, s)` and the pair `(r, n - s)` are both accepted or both not, and it makes
no difference which of the bytes for a signature hash type stands behind them; with any other byte
they are not accepted. -/
theorem isValid_forms {r s : Nat} (hr : 0 < r ∧ r < n) (hs : 0 < s ∧ s < n)
    (publicKey digest : Bytes) :
    (∀ flag ∈ SigHash.flags, isValid publicKey (Der.write r s ++ [flag]) digest = true ↔
      Accepted publicKey digest r s) ∧
    (∀ flag ∈ SigHash.flags, ∀ flag' ∈ SigHash.flags,
      isValid publicKey (Der.write r (n - s) ++ [flag']) digest =
        isValid publicKey (Der.write r s ++ [flag]) digest) ∧
    ∀ flag ∉ SigHash.flags, isValid publicKey (Der.write r s ++ [flag]) digest = false := by
  refine ⟨fun _ => isValid_write_iff hr hs, fun flag hflag flag' hflag' => ?_,
    fun _ => isValid_of_not_mem_flags⟩
  rw [Bool.eq_iff_iff, isValid_write_sub_iff hr hs hflag', isValid_write_iff hr hs hflag]

/-- With the nonce one and the key one, the digest of zeros has a signature whose two numbers are
the first coordinate of the generator.  The other form has a zero in front of its second number. -/
theorem isValid_forms_generator :
    (0 < generator.x ∧ generator.x < n) ∧ Ecdsa.lowS generator.x = generator.x ∧
    (Der.write generator.x (n - generator.x)).length =
      (Der.write generator.x generator.x).length + 1 ∧
    isValid (PublicKey.write generator) (Der.write generator.x generator.x ++ [0x01])
      Digest.zero.bytes = true ∧
    isValid (PublicKey.write generator) (Der.write generator.x (n - generator.x) ++ [0x83])
      Digest.zero.bytes = true := by
  have hrange : 0 < generator.x ∧ generator.x < n := by decide
  have hvalid : isValid (PublicKey.write generator) (Der.write generator.x generator.x ++ [0x01])
      Digest.zero.bytes = true := by decide +kernel
  obtain ⟨-, hforms, -⟩ :=
    isValid_forms hrange hrange (PublicKey.write generator) Digest.zero.bytes
  refine ⟨hrange, by decide, by decide +kernel, hvalid, ?_⟩
  rw [hforms 0x01 (by decide) 0x83 (by decide)]
  exact hvalid

end ScriptSignature

end SpendScript
