import Mathlib.Algebra.Group.Nat.Defs
import SpendScript.Proofs.Bytes.Width

/-!
# Digits of numbers

The digits of a number are the one byte string that spells it and does not end with a zero byte.

* `Bytes.toNatLE_append` : a byte string spells what its parts spell, the later part above the
  earlier one;
* `Bytes.exists_digitsLE_eq` : the digits of a number end with a byte that is not zero;
* `Bytes.digitsLE_toNatLE_concat` : a byte string with such an end is what its number is written as;
* `Bytes.toNatBE_ofNatBE`, `Bytes.toNatBE_digitsBE` : with the most significant byte first, too,
  numbers read back.
-/

namespace SpendScript

namespace Bytes

theorem bound_pos (width : Nat) : 0 < bound width := by
  induction width with
  | zero => exact Nat.one_pos
  | succ width ih =>
    simp only [bound]
    omega

theorem bound_eq_two_pow (width : Nat) : bound width = 2 ^ (8 * width) := by
  induction width with
  | zero => rfl
  | succ width ih =>
    rw [bound, ih, Nat.mul_succ, Nat.pow_add, Nat.mul_comm]

theorem toNatLE_append (low high : Bytes) :
    toNatLE (low ++ high) = toNatLE low + bound low.length * toNatLE high := by
  induction low with
  | nil => simp [toNatLE, bound]
  | cons b low ih =>
    simp only [List.cons_append, toNatLE, ih, List.length_cons, bound]
    rw [Nat.mul_add, Nat.mul_assoc, Nat.add_assoc]

theorem toNatLE_concat (digits : Bytes) (last : UInt8) :
    toNatLE (digits ++ [last]) = toNatLE digits + bound digits.length * last.toNat := by
  rw [toNatLE_append]
  simp [toNatLE]

/-- A last byte that is not zero counts at least once what the bytes before it cannot spell. -/
theorem bound_le_toNatLE_concat (digits : Bytes) {last : UInt8} (h : last ≠ 0) :
    bound digits.length ≤ toNatLE (digits ++ [last]) := by
  have hlast : 0 < last.toNat := Nat.pos_of_ne_zero fun h0 => h (UInt8.toNat.inj h0)
  have hmul := Nat.le_mul_of_pos_right (bound digits.length) hlast
  rw [toNatLE_concat]
  omega

/-- **The digits of a number end with a byte that is not zero.** -/
theorem exists_digitsLE_eq {n : Nat} (h : n ≠ 0) :
    ∃ digits last, last ≠ 0 ∧ digitsLE n = digits ++ [last] := by
  induction n using Nat.strongRecOn with
  | ind n ih =>
    rw [digitsLE, if_neg h]
    by_cases hrest : n / 256 = 0
    · -- the only digit is the number itself
      have hlast : UInt8.ofNat (n % 256) ≠ 0 := by
        intro h0
        have hval := congrArg UInt8.toNat h0
        rw [UInt8.toNat_ofNat', UInt8.toNat_zero] at hval
        omega
      refine ⟨[], UInt8.ofNat (n % 256), hlast, ?_⟩
      rw [hrest, digitsLE, if_pos rfl, List.nil_append]
    · obtain ⟨digits, last, hlast, hdigits⟩ := ih (n / 256) (by omega) hrest
      exact ⟨UInt8.ofNat (n % 256) :: digits, last, hlast, by rw [hdigits, List.cons_append]⟩

/-- **A byte string that does not end with zero is what its number is written as.** -/
theorem digitsLE_toNatLE_concat {digits : Bytes} {last : UInt8} (h : last ≠ 0) :
    digitsLE (toNatLE (digits ++ [last])) = digits ++ [last] := by
  induction digits with
  | nil =>
    have hlt := last.toNat_lt
    have hone : toNatLE ([] ++ [last]) = last.toNat := by simp [toNatLE]
    have hne : last.toNat ≠ 0 := fun h0 => h (UInt8.toNat.inj h0)
    rw [hone, digitsLE, if_neg hne, Nat.div_eq_of_lt hlt, Nat.mod_eq_of_lt hlt, digitsLE,
      if_pos rfl, UInt8.ofNat_toNat, List.nil_append]
  | cons b digits ih =>
    have hb := b.toNat_lt
    have hrest := bound_le_toNatLE_concat digits h
    have hrest_pos := bound_pos digits.length
    simp only [List.cons_append, toNatLE]
    generalize toNatLE (digits ++ [last]) = n at hrest ih ⊢
    have hne : b.toNat + 256 * n ≠ 0 := by omega
    have hmod : (b.toNat + 256 * n) % 256 = b.toNat := by omega
    have hdiv : (b.toNat + 256 * n) / 256 = n := by omega
    rw [digitsLE, if_neg hne, hmod, hdiv, ih, UInt8.ofNat_toNat]

/-! ### Most significant byte first -/

theorem toNatBE_reverse (bytes : Bytes) : toNatBE bytes.reverse = toNatLE bytes := by
  rw [toNatBE, List.foldl_reverse]
  induction bytes with
  | nil => rfl
  | cons b rest ih => rw [List.foldr_cons, ih, toNatLE, Nat.add_comm]

theorem toNatBE_lt_bound (bytes : Bytes) : toNatBE bytes < bound bytes.length := by
  have h := toNatLE_lt_bound bytes.reverse
  rwa [← toNatBE_reverse, List.reverse_reverse, List.length_reverse] at h

theorem toNatBE_cons (first : UInt8) (rest : Bytes) :
    toNatBE (first :: rest) = bound rest.length * first.toNat + toNatBE rest := by
  have h := toNatLE_concat rest.reverse first
  rwa [← toNatBE_reverse, ← toNatBE_reverse, List.reverse_concat, List.reverse_reverse,
    List.length_reverse, Nat.add_comm] at h

theorem toNatBE_ofNatBE {width n : Nat} (h : n < bound width) : toNatBE (ofNatBE width n) = n := by
  rw [ofNatBE, toNatBE_reverse, toNatLE_ofNatLE h]

theorem toNatBE_digitsBE (n : Nat) : toNatBE (digitsBE n) = n := by
  rw [digitsBE, toNatBE_reverse, toNatLE_digitsLE]

theorem length_digitsBE_le {n width : Nat} (h : n < bound width) :
    (digitsBE n).length ≤ width := by
  rw [digitsBE, List.length_reverse]
  exact length_digitsLE_le h

theorem digitsBE_zero : digitsBE 0 = [] := by
  rw [digitsBE, digitsLE, if_pos rfl, List.reverse_nil]

theorem exists_digitsBE_eq {n : Nat} (h : n ≠ 0) :
    ∃ first rest, first ≠ 0 ∧ digitsBE n = first :: rest := by
  obtain ⟨digits, last, hlast, hdigits⟩ := exists_digitsLE_eq h
  exact ⟨last, digits.reverse, hlast, by rw [digitsBE, hdigits, List.reverse_concat]⟩

end Bytes

end SpendScript
