import SpendScript.Crypto.PublicKey
import SpendScript.Proofs.Bytes.Digits
import SpendScript.Proofs.Crypto.Group

/-!
# Public keys are read as they are written

In thirty-three bytes stands only whether the second coordinate of a point is odd.  It is found
again as a root of the right side of the equation of the curve: the modulus is three modulo four, so
that a power is a root of every square, and of the two roots just one is odd.

* `Curve.pow_square` : the power is a root of a square;
* `Curve.lift?_eq` : so a point is found by its first coordinate and whether its second is odd;
* `PublicKey.read?_write` : and a public key is read as it was written.
-/

namespace SpendScript

namespace Curve

variable {a b : Nat} {q : Point}

/-- **A power of a square is a root of it.** -/
theorem pow_square (y : ZMod p) : ((y ^ 2) ^ ((p + 1) / 4)) ^ 2 = y ^ 2 := by
  have hexponent : 2 * ((p + 1) / 4 * 2) = p + 1 := by decide
  rw [← pow_mul, ← pow_mul, hexponent, pow_succ, ZMod.pow_card, pow_two]

theorem eq_or_eq_sub (ha : a < p) (hb : b < p) (h : (a : ZMod p) ^ 2 = (b : ZMod p) ^ 2) :
    a = b ∨ 0 < b ∧ a = p - b := by
  rcases sq_eq_sq_iff_eq_or_eq_neg.1 h with heq | hneg
  · exact .inl (Modular.eq_of_cast_eq ha hb heq)
  · rcases Nat.eq_zero_or_pos b with hzero | hpos
    · refine .inl (Modular.eq_of_cast_eq ha hb ?_)
      rw [hneg, hzero, Nat.cast_zero, neg_zero]
    · have hcast := Modular.cast_self_sub hb.le
      exact .inr ⟨hpos, Modular.eq_of_cast_eq ha (Nat.sub_lt p_pos hpos) (hneg.trans hcast.symm)⟩

/-- Of the two roots just one is odd. -/
theorem choose_root (hb : b < p) (h : a = b ∨ 0 < b ∧ a = p - b) :
    (if (a % 2 == 1) == (b % 2 == 1) then a else Modular.negate p a) = b := by
  rcases h with rfl | ⟨hpos, rfl⟩
  · rw [if_pos (beq_self_eq_true _)]
  · have hodd : p % 2 = 1 := by decide
    have hparity : ¬((p - b) % 2 = 1 ↔ b % 2 = 1) := by omega
    rw [if_neg (by simpa using hparity), Modular.negate, Nat.mod_eq_of_lt (Nat.sub_lt p_pos hpos),
      Nat.sub_sub_self hb.le, Nat.mod_eq_of_lt hb]

/-- **A point is found by its first coordinate and whether its second is odd.** -/
theorem lift?_eq (hq : q.isOnCurve = true) : lift? q.x (q.y % 2 == 1) = some q := by
  obtain ⟨hx, hy, hequation⟩ := Point.isOnCurve_eq_true_iff.1 hq
  let root := Modular.pow p (rightSide q.x) ((p + 1) / 4)
  have hsquare : (root : ZMod p) ^ 2 = (q.y : ZMod p) ^ 2 := by
    rw [Modular.cast_pow, ← hequation, ZMod.natCast_mod, Nat.cast_mul, ← pow_two, pow_square]
  have hverified : root * root % p = rightSide q.x := by
    rw [← hequation, ← ZMod.natCast_eq_natCast_iff', Nat.cast_mul, Nat.cast_mul, ← pow_two, hsquare,
      pow_two]
  have hlift : lift? q.x (q.y % 2 == 1) =
      some ⟨q.x, if (root % 2 == 1) == (q.y % 2 == 1) then root else Modular.negate p root⟩ :=
    if_pos ⟨hx, hverified⟩
  rw [hlift, choose_root hy (eq_or_eq_sub (Modular.pow_lt p_pos _ _) hy hsquare)]

end Curve

namespace PublicKey

open Curve

theorem p_lt_bound : p < Bytes.bound 32 := by decide

/-- **A public key is read as it was written.** -/
theorem read?_write {q : Point} (hq : q.isOnCurve = true) : read? (write q) = some q := by
  have hx : q.x < p := (Point.isOnCurve_eq_true_iff.1 hq).1
  have hnumber : (Bytes.ofNatBE 32 q.x).toNatBE = q.x :=
    Bytes.toNatBE_ofNatBE (hx.trans p_lt_bound)
  have hlift := lift?_eq hq
  rcases Nat.mod_two_eq_zero_or_one q.y with heven | hodd
  · rw [write, if_pos heven]
    rw [heven] at hlift
    simpa [read?, hnumber] using hlift
  · rw [write, if_neg (by omega)]
    rw [hodd] at hlift
    simpa [read?, hnumber] using hlift

end PublicKey

end SpendScript
