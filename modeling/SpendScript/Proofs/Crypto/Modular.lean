import Mathlib.FieldTheory.Finite.Basic
import SpendScript.Crypto.Curve

/-!
# Residues as numbers

Residues are computed as natural numbers below the modulus.  What is computed stands for the same
expression in the ring of residues.

* `Modular.pow_eq` : repeated squaring computes the remainder of the power;
* `Modular.cast_sub` : so are differences the differences of residues;
* `Modular.cast_inverse` : modulo a prime, inverses.
-/

namespace SpendScript

namespace Modular

variable {m a b : Nat}

/-- **Repeated squaring computes the remainder of the power.** -/
theorem pow_eq (m a e : Nat) : pow m a e = a ^ e % m := by
  induction e using Nat.strong_induction_on with
  | _ e ih =>
    unfold pow
    by_cases hzero : e = 0
    · rw [if_pos hzero, hzero, pow_zero]
    · rw [if_neg hzero, ih (e / 2) (by omega)]
      have hsquare : a ^ (e / 2) % m * (a ^ (e / 2) % m) % m = a ^ (e / 2 + e / 2) % m := by
        rw [← Nat.mul_mod, pow_add]
      simp only [hsquare]
      by_cases hodd : e % 2 = 1
      · rw [if_pos hodd, Nat.mod_mul_mod, ← pow_succ, show e / 2 + e / 2 + 1 = e by omega]
      · rw [if_neg hodd, show e / 2 + e / 2 = e by omega]

theorem pow_lt (hm : 0 < m) (a e : Nat) : pow m a e < m := by
  rw [pow_eq]
  exact Nat.mod_lt _ hm

theorem sub_lt (hm : 0 < m) (a b : Nat) : sub m a b < m :=
  Nat.mod_lt _ hm

/-! ### Residues -/

theorem eq_of_cast_eq (ha : a < m) (hb : b < m) (h : (a : ZMod m) = b) : a = b := by
  rwa [ZMod.natCast_eq_natCast_iff', Nat.mod_eq_of_lt ha, Nat.mod_eq_of_lt hb] at h

theorem natCast_eq_zero_iff (ha : a < m) : (a : ZMod m) = 0 ↔ a = 0 := by
  constructor
  · intro h
    exact eq_of_cast_eq ha (Nat.zero_lt_of_lt ha) (by rw [h, Nat.cast_zero])
  · rintro rfl
    exact Nat.cast_zero

theorem natCast_ne_zero (hpos : 0 < a) (ha : a < m) : (a : ZMod m) ≠ 0 :=
  mt (natCast_eq_zero_iff ha).1 (Nat.ne_of_gt hpos)

theorem cast_self_sub (ha : a ≤ m) : ((m - a : Nat) : ZMod m) = -a := by
  rw [Nat.cast_sub ha, ZMod.natCast_self, zero_sub]

theorem cast_pow (m a e : Nat) : (pow m a e : ZMod m) = (a : ZMod m) ^ e := by
  rw [pow_eq, ZMod.natCast_mod, Nat.cast_pow]

theorem cast_sub (a : Nat) (hb : b ≤ m) : (sub m a b : ZMod m) = a - b := by
  rw [sub, ZMod.natCast_mod, Nat.cast_sub (hb.trans (Nat.le_add_left _ _)), Nat.cast_add,
    ZMod.natCast_self, add_zero]

/-- **Modulo a prime, the power computes the inverse.** -/
theorem cast_inverse [Fact m.Prime] (hm : 2 < m) (a : Nat) :
    (inverse m a : ZMod m) = (a : ZMod m)⁻¹ := by
  rw [inverse, cast_pow]
  by_cases ha : (a : ZMod m) = 0
  · rw [ha, inv_zero, zero_pow (by omega)]
  · have hfermat : (a : ZMod m) ^ (m - 2) * a = 1 := by
      rw [← pow_succ, show m - 2 + 1 = m - 1 by omega, ZMod.pow_card_sub_one_eq_one ha]
    exact eq_inv_of_mul_eq_one_left hfermat

end Modular

end SpendScript
