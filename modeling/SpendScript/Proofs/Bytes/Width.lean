import SpendScript.Bytes.Basic

/-!
# Widths of byte strings and sizes of numbers

A byte string spells a number below the bound of its width, and is the only one of its width that
spells it.

* `Bytes.toNatLE_lt_bound` : a number that a byte string spells fits into its width;
* `Bytes.ofNatLE_toNatLE` : a byte string is what its number is written as;
* `Bytes.length_digitsLE_le` : a number that fits into a width has no more digits than that.
-/

namespace SpendScript

namespace Bytes

theorem bound_le_succ (width : Nat) : bound width ≤ bound (width + 1) := by
  simp only [bound]
  omega

theorem bound_mono {v w : Nat} (h : v ≤ w) : bound v ≤ bound w := by
  induction h with
  | refl => exact Nat.le_refl _
  | step _ ih => exact Nat.le_trans ih (bound_le_succ _)

theorem toNatLE_lt_bound (bytes : Bytes) : bytes.toNatLE < bound bytes.length := by
  induction bytes with
  | nil => exact Nat.one_pos
  | cons b rest ih =>
    have hb := b.toNat_lt
    simp only [toNatLE, List.length_cons, bound]
    omega

theorem ofNatLE_toNatLE (bytes : Bytes) : ofNatLE bytes.length bytes.toNatLE = bytes := by
  induction bytes with
  | nil => rfl
  | cons b rest ih =>
    have hb := b.toNat_lt
    have hmod : (b.toNat + 256 * toNatLE rest) % 256 = b.toNat := by omega
    have hdiv : (b.toNat + 256 * toNatLE rest) / 256 = toNatLE rest := by omega
    simp only [toNatLE, List.length_cons, ofNatLE, hmod, hdiv, ih, UInt8.ofNat_toNat]

theorem length_digitsLE_le {n width : Nat} (h : n < bound width) :
    (digitsLE n).length ≤ width := by
  induction width generalizing n with
  | zero =>
    have hn : n = 0 := by simp only [bound] at h; omega
    rw [hn, digitsLE]
    simp
  | succ width ih =>
    simp only [bound] at h
    rw [digitsLE]
    split
    · exact Nat.zero_le _
    · have hrest := @ih (n / 256) (by omega)
      simpa using hrest

end Bytes

end SpendScript
