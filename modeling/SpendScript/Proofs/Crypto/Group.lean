import Mathlib.AlgebraicGeometry.EllipticCurve.Affine.Point
import Mathlib.Tactic.LinearCombination
import SpendScript.Proofs.Crypto.Primes

/-!
# The group of the curve

The points of the curve with the point at infinity are a commutative group.  Sums and multiples are
computed in coordinates with a common denominator, which stand for a point of the group
(`Curve.Represents`).

* `Curve.Represents.double`, `Curve.Represents.add`, `Curve.Represents.multiply` : what is computed
  stands for the double, the sum and the multiple in the group;
* `Curve.Represents.toPoint?_eq` : the coordinates of a point are found again;
* `Curve.multiply?_eq`, `Curve.combine?_eq` : so multiples and their sums are those of the group.
-/

namespace SpendScript

namespace Curve

open WeierstrassCurve.Affine (Nonsingular)

instance : Fact p.Prime := ⟨prime_p⟩

instance : Fact n.Prime := ⟨prime_n⟩

/-- The curve over the residues. -/
def weierstrass : WeierstrassCurve.Affine (ZMod p) where
  a₁ := 0
  a₂ := 0
  a₃ := 0
  a₄ := 0
  a₆ := 7

/-- The points of the curve with the point at infinity. -/
abbrev Group := weierstrass.Point

variable {x y x₁ y₁ x₂ y₂ : ZMod p}

theorem two_ne_zero : (2 : ZMod p) ≠ 0 :=
  Modular.natCast_ne_zero (a := 2) (by decide) (by decide)

theorem equation_iff : weierstrass.Equation x y ↔ y ^ 2 = x ^ 3 + 7 := by
  rw [WeierstrassCurve.Affine.equation_iff]
  simp [weierstrass]

theorem nonsingular_iff : weierstrass.Nonsingular x y ↔ y ^ 2 = x ^ 3 + 7 := by
  have hΔ : weierstrass.Δ ≠ 0 := by
    have hvalue : weierstrass.Δ = -((21168 : Nat) : ZMod p) := by
      simp only [WeierstrassCurve.Δ, WeierstrassCurve.b₂, WeierstrassCurve.b₄, WeierstrassCurve.b₆,
        WeierstrassCurve.b₈, weierstrass]
      push_cast
      ring
    rw [hvalue, neg_ne_zero]
    exact Modular.natCast_ne_zero (by decide) (by decide)
  rw [← WeierstrassCurve.Affine.equation_iff_nonsingular_of_Δ_ne_zero hΔ, equation_iff]

theorem negY_eq : weierstrass.negY x y = -y := by
  simp [WeierstrassCurve.Affine.negY, weierstrass]

theorem addX_eq (slope : ZMod p) : weierstrass.addX x₁ x₂ slope = slope ^ 2 - x₁ - x₂ := by
  simp [WeierstrassCurve.Affine.addX, weierstrass]

theorem addY_eq (slope : ZMod p) :
    weierstrass.addY x₁ x₂ y₁ slope = slope * (x₁ - weierstrass.addX x₁ x₂ slope) - y₁ := by
  rw [WeierstrassCurve.Affine.addY, negY_eq, WeierstrassCurve.Affine.negAddY]
  ring

/-! ### Sums -/

theorem some_add_self (h : weierstrass.Nonsingular x y) (hy : y ≠ 0) :
    ∃ slope x' y' h', (.some x y h + .some x y h : Group) = .some x' y' h' ∧
      slope * (2 * y) = 3 * x ^ 2 ∧ x' = slope ^ 2 - 2 * x ∧ y' = slope * (x - x') - y := by
  have hne : y ≠ weierstrass.negY x y := by
    rw [negY_eq, Ne, eq_neg_iff_add_eq_zero, ← two_mul, mul_eq_zero]
    exact not_or.2 ⟨two_ne_zero, hy⟩
  refine ⟨weierstrass.slope x x y y, _, _, _,
    WeierstrassCurve.Affine.Point.add_self_of_Y_ne hne, ?_, ?_, addY_eq _⟩
  · rw [WeierstrassCurve.Affine.slope_of_Y_ne rfl hne, negY_eq, sub_neg_eq_add, ← two_mul,
      div_mul_cancel₀ _ (mul_ne_zero two_ne_zero hy)]
    simp [weierstrass]
  · rw [addX_eq]
    ring

theorem some_add_some (h₁ : weierstrass.Nonsingular x₁ y₁) (h₂ : weierstrass.Nonsingular x₂ y₂)
    (hx : x₁ ≠ x₂) :
    ∃ slope x' y' h', (.some x₁ y₁ h₁ + .some x₂ y₂ h₂ : Group) = .some x' y' h' ∧
      slope * (x₂ - x₁) = y₂ - y₁ ∧ x' = slope ^ 2 - x₁ - x₂ ∧ y' = slope * (x₁ - x') - y₁ := by
  refine ⟨weierstrass.slope x₁ x₂ y₁ y₂, _, _, _,
    WeierstrassCurve.Affine.Point.add_of_X_ne hx, ?_, addX_eq _, addY_eq _⟩
  rw [WeierstrassCurve.Affine.slope_of_X_ne hx, ← neg_sub x₁ x₂, mul_neg,
    div_mul_cancel₀ _ (sub_ne_zero.2 hx), neg_sub]

theorem some_add_some_eq_zero (h₁ : weierstrass.Nonsingular x y₁)
    (h₂ : weierstrass.Nonsingular x y₂) (hy : y₁ ≠ y₂) :
    (.some x y₁ h₁ + .some x y₂ h₂ : Group) = 0 :=
  WeierstrassCurve.Affine.Point.add_of_Y_eq rfl
    ((WeierstrassCurve.Affine.Y_eq_of_X_eq h₁.1 h₂.1 rfl).resolve_left hy)

/-! ### Coordinates with a common denominator -/

/-- The coordinates are residues. -/
structure Projective.Reduced (q : Projective) : Prop where
  /-- The first one is. -/
  x_lt : q.x < p
  /-- The second one is. -/
  y_lt : q.y < p
  /-- The denominator is. -/
  z_lt : q.z < p

/-- The coordinates stand for a point. -/
inductive Represents (q : Projective) (P : Group) : Prop
  /-- For the point at infinity. -/
  | infinity (hq : q.Reduced) (hz : q.z = 0) (hP : P = 0)
  /-- For a point with its own coordinates. -/
  | affine (hq : q.Reduced) {x y : ZMod p} (h : weierstrass.Nonsingular x y) (hP : P = .some x y h)
      (hz : q.z ≠ 0) (hx : (q.x : ZMod p) = x * q.z ^ 2) (hy : (q.y : ZMod p) = y * q.z ^ 3)

variable {q r : Projective} {P Q : Group} {a b : Nat}

theorem p_pos : 0 < p := prime_p.pos

theorem two_lt_p : 2 < p := by decide

/-! ### Formulas -/

theorem cast_sub_mod (a b : Nat) : (Modular.sub p a (b % p) : ZMod p) = a - b := by
  rw [Modular.cast_sub a (Nat.mod_lt b p_pos).le, ZMod.natCast_mod]

theorem cast_sub_sub (a b c : Nat) :
    (Modular.sub p a (Modular.sub p b c) : ZMod p) = a - (Modular.sub p b c : Nat) :=
  Modular.cast_sub a (Modular.sub_lt p_pos b c).le

theorem double_of_zero (h : q.z = 0 ∨ q.y = 0) : q.double = .infinity :=
  if_pos h

theorem cast_double (hz : q.z ≠ 0) (hy : q.y ≠ 0) : q.double.Reduced ∧
    (q.double.x : ZMod p) = (3 * q.x ^ 2) ^ 2 - 2 * (4 * q.x * q.y ^ 2) ∧
    (q.double.y : ZMod p) = 3 * q.x ^ 2 * (4 * q.x * q.y ^ 2 - q.double.x) - 8 * q.y ^ 4 ∧
    (q.double.z : ZMod p) = 2 * q.y * q.z := by
  rw [Projective.double, if_neg (not_or.2 ⟨hz, hy⟩)]
  refine ⟨⟨Modular.sub_lt p_pos _ _, Modular.sub_lt p_pos _ _, Nat.mod_lt _ p_pos⟩, ?_, ?_, ?_⟩
  · simp only [cast_sub_mod, ZMod.natCast_mod, Nat.cast_mul, Nat.cast_ofNat]
    ring
  · simp only [cast_sub_mod, cast_sub_sub, ZMod.natCast_mod, Nat.cast_mul, Nat.cast_ofNat]
    ring
  · simp only [ZMod.natCast_mod, Nat.cast_mul, Nat.cast_ofNat]
    ring

/-- How far the first coordinates of two points are apart over a common denominator. -/
def gapX (q r : Projective) : Nat :=
  Modular.sub p (r.x * (q.z * q.z % p) % p) (q.x * (r.z * r.z % p) % p)

/-- How far the second coordinates of two points are apart over a common denominator. -/
def gapY (q r : Projective) : Nat :=
  Modular.sub p (r.y * (q.z * q.z % p * q.z % p) % p) (q.y * (r.z * r.z % p * r.z % p) % p)

theorem cast_gapX (q r : Projective) :
    (gapX q r : ZMod p) = r.x * q.z ^ 2 - q.x * r.z ^ 2 := by
  simp only [gapX, cast_sub_mod, ZMod.natCast_mod, Nat.cast_mul, pow_two]

theorem cast_gapY (q r : Projective) :
    (gapY q r : ZMod p) = r.y * q.z ^ 3 - q.y * r.z ^ 3 := by
  simp only [gapY, cast_sub_mod, ZMod.natCast_mod, Nat.cast_mul, pow_succ, pow_zero, one_mul]

theorem gapX_eq_zero_iff : gapX q r = 0 ↔ (gapX q r : ZMod p) = 0 :=
  (Modular.natCast_eq_zero_iff (Modular.sub_lt p_pos _ _)).symm

theorem gapY_eq_zero_iff : gapY q r = 0 ↔ (gapY q r : ZMod p) = 0 :=
  (Modular.natCast_eq_zero_iff (Modular.sub_lt p_pos _ _)).symm

section Sum

variable (hq : q.z ≠ 0) (hr : r.z ≠ 0)
include hq hr

theorem add_of_gapX_eq_zero (h : gapX q r = 0) :
    q.add r = if gapY q r = 0 then q.double else .infinity := by
  rw [Projective.add, if_neg hq, if_neg hr]
  exact if_pos h

theorem cast_add (h : gapX q r ≠ 0) : (q.add r).Reduced ∧
    ((q.add r).x : ZMod p) =
      (gapY q r : ZMod p) ^ 2 - (gapX q r : ZMod p) ^ 3 -
        2 * (q.x * r.z ^ 2 * (gapX q r : ZMod p) ^ 2) ∧
    ((q.add r).y : ZMod p) =
      gapY q r * (q.x * r.z ^ 2 * (gapX q r : ZMod p) ^ 2 - (q.add r).x) -
        q.y * r.z ^ 3 * (gapX q r : ZMod p) ^ 3 ∧
    ((q.add r).z : ZMod p) = gapX q r * (q.z * r.z) := by
  have hadd : q.add r = _ := (if_neg hq).trans ((if_neg hr).trans (if_neg h))
  rw [hadd]
  refine ⟨⟨Modular.sub_lt p_pos _ _, Modular.sub_lt p_pos _ _, Nat.mod_lt _ p_pos⟩, ?_, ?_, ?_⟩
  · simp only [gapX, gapY, cast_sub_mod, ZMod.natCast_mod, Nat.cast_mul, Nat.cast_ofNat]
    ring
  · simp only [gapX, gapY, cast_sub_mod, cast_sub_sub, ZMod.natCast_mod, Nat.cast_mul,
      Nat.cast_ofNat]
    ring
  · simp only [gapX, cast_sub_mod, ZMod.natCast_mod, Nat.cast_mul]

end Sum

namespace Represents

theorem infinity_zero : Represents .infinity 0 :=
  .infinity ⟨by decide, by decide, by decide⟩ rfl rfl

theorem double (h : Represents q P) : Represents q.double (P + P) := by
  cases h with
  | infinity hq hz hP =>
    rw [hP, add_zero, double_of_zero (.inl hz)]
    exact infinity_zero
  | @affine hq x y h hP hz hx hy =>
    have hz' : (q.z : ZMod p) ≠ 0 := mt (Modular.natCast_eq_zero_iff hq.z_lt).1 hz
    have hzero : q.y = 0 ↔ y = 0 := by
      rw [← Modular.natCast_eq_zero_iff hq.y_lt, hy, mul_eq_zero, or_iff_left (pow_ne_zero 3 hz')]
    subst hP
    by_cases hy0 : y = 0
    · have hsum : (.some x y h + .some x y h : Group) = 0 :=
        WeierstrassCurve.Affine.Point.add_self_of_Y_eq (by rw [negY_eq, hy0, neg_zero])
      rw [hsum, double_of_zero (.inr (hzero.2 hy0))]
      exact infinity_zero
    · obtain ⟨slope, x', y', h', hsum, hslope, hx', hy'⟩ := some_add_self h hy0
      obtain ⟨hreduced, hX, hY, hZ⟩ := cast_double hz (mt hzero.1 hy0)
      rw [hx, hy] at hX hY
      rw [hy] at hZ
      have hx₂ : (q.double.x : ZMod p) = x' * q.double.z ^ 2 := by
        rw [hX, hZ, hx']
        linear_combination -(q.z : ZMod p) ^ 8 * (slope * (2 * y) + 3 * x ^ 2) * hslope
      refine .affine hreduced h' hsum ?_ hx₂ ?_
      · rw [Ne, ← Modular.natCast_eq_zero_iff hreduced.z_lt, hZ]
        exact mul_ne_zero (mul_ne_zero two_ne_zero (mul_ne_zero hy0 (pow_ne_zero 3 hz'))) hz'
      · rw [hY, hx₂, hZ, hy']
        linear_combination -4 * y ^ 2 * (q.z : ZMod p) ^ 12 * (x - x') * hslope

theorem add (h : Represents q P) (h' : Represents r Q) : Represents (q.add r) (P + Q) := by
  cases h with
  | infinity hq hz hP =>
    rw [hP, zero_add, Projective.add, if_pos hz]
    exact h'
  | @affine hq x₁ y₁ h₁ hP hz₁ hx₁ hy₁ =>
    cases h' with
    | infinity hr hz hQ =>
      rw [hQ, add_zero, Projective.add, if_neg hz₁, if_pos hz]
      exact .affine hq h₁ hP hz₁ hx₁ hy₁
    | @affine hr x₂ y₂ h₂ hQ hz₂ hx₂ hy₂ =>
      have hw₁ : (q.z : ZMod p) ≠ 0 := mt (Modular.natCast_eq_zero_iff hq.z_lt).1 hz₁
      have hw₂ : (r.z : ZMod p) ≠ 0 := mt (Modular.natCast_eq_zero_iff hr.z_lt).1 hz₂
      have hgapX : (gapX q r : ZMod p) = (x₂ - x₁) * (q.z * r.z) ^ 2 := by
        rw [cast_gapX, hx₁, hx₂]
        ring
      have hgapY : (gapY q r : ZMod p) = (y₂ - y₁) * (q.z * r.z) ^ 3 := by
        rw [cast_gapY, hy₁, hy₂]
        ring
      have hw : (q.z * r.z : ZMod p) ≠ 0 := mul_ne_zero hw₁ hw₂
      have hzeroX : gapX q r = 0 ↔ x₁ = x₂ := by
        rw [gapX_eq_zero_iff, hgapX, mul_eq_zero, or_iff_left (pow_ne_zero 2 hw), sub_eq_zero,
          eq_comm]
      have hzeroY : gapY q r = 0 ↔ y₁ = y₂ := by
        rw [gapY_eq_zero_iff, hgapY, mul_eq_zero, or_iff_left (pow_ne_zero 3 hw), sub_eq_zero,
          eq_comm]
      by_cases hx : x₁ = x₂
      · rw [add_of_gapX_eq_zero hz₁ hz₂ (hzeroX.2 hx)]
        subst hx
        by_cases hy : y₁ = y₂
        · subst hy
          have hPQ : Q = P := hQ.trans hP.symm
          rw [if_pos (hzeroY.2 rfl), hPQ]
          exact double (.affine hq h₁ hP hz₁ hx₁ hy₁)
        · rw [if_neg (mt hzeroY.1 hy), hP, hQ, some_add_some_eq_zero h₁ h₂ hy]
          exact infinity_zero
      · obtain ⟨slope, x', y', h', hsum, hslope, hx', hy'⟩ := some_add_some h₁ h₂ hx
        obtain ⟨hreduced, hX, hY, hZ⟩ := cast_add hz₁ hz₂ (mt hzeroX.1 hx)
        rw [hgapX] at hX hY hZ
        rw [hgapY, hx₁] at hX hY
        rw [hy₁] at hY
        have hx₃ : ((q.add r).x : ZMod p) = x' * (q.add r).z ^ 2 := by
          rw [hX, hZ, hx']
          linear_combination
            -(q.z * r.z : ZMod p) ^ 6 * (y₂ - y₁ + slope * (x₂ - x₁)) * hslope
        refine .affine hreduced h' (by rw [hP, hQ, hsum]) ?_ hx₃ ?_
        · rw [Ne, ← Modular.natCast_eq_zero_iff hreduced.z_lt, hZ]
          exact mul_ne_zero (mul_ne_zero (sub_ne_zero.2 (Ne.symm hx)) (pow_ne_zero 2 hw)) hw
        · rw [hY, hx₃, hZ, hy']
          linear_combination
            -(q.z * r.z : ZMod p) ^ 9 * (x₂ - x₁) ^ 2 * (x₁ - x') * hslope

theorem multiply (h : Represents q P) (k : Nat) : Represents (q.multiply k) (k • P) := by
  induction k using Nat.strong_induction_on with
  | _ k ih =>
    unfold Projective.multiply
    by_cases hzero : k = 0
    · rw [if_pos hzero, hzero, zero_nsmul]
      exact infinity_zero
    · rw [if_neg hzero]
      have htwice : Represents (q.multiply (k / 2)).double ((k / 2 + k / 2) • P) := by
        rw [add_nsmul]
        exact (ih (k / 2) (by omega)).double
      by_cases hodd : k % 2 = 1
      · have hk : k • P = (k / 2 + k / 2) • P + P := by
          rw [← succ_nsmul, show k / 2 + k / 2 + 1 = k by omega]
        simp only [if_pos hodd]
        rw [hk]
        exact htwice.add h
      · rw [show k / 2 + k / 2 = k by omega] at htwice
        simpa only [if_neg hodd] using htwice

end Represents

/-! ### Points -/

/-- The coordinates of a point, unless it is at infinity. -/
def coordinates? : Group → Option Point
  | .zero => none
  | .some x y _ => some ⟨x.val, y.val⟩

theorem coordinates?_eq_none_iff : coordinates? P = none ↔ P = 0 := by
  cases P with
  | zero => exact iff_of_true rfl rfl
  | some x y h => exact iff_of_false (by simp [coordinates?]) (by simp)

/-- The first coordinate of a point, unless it is at infinity. -/
def firstCoordinate? (P : Group) : Option Nat :=
  (coordinates? P).map Point.x

theorem firstCoordinate?_neg (P : Group) : firstCoordinate? (-P) = firstCoordinate? P := by
  cases P with
  | zero => rfl
  | some x y h => rfl

theorem represents_ofPoint {q : Point} (h : coordinates? P = some q) :
    Represents (.ofPoint q) P := by
  cases P with
  | zero => exact absurd h (by simp [coordinates?])
  | some x y hxy =>
    obtain rfl := Option.some.inj h
    refine .affine ⟨x.val_lt, y.val_lt, prime_p.one_lt⟩ hxy rfl one_ne_zero ?_ ?_ <;>
      simp [Projective.ofPoint]

/-- **The coordinates of a point are found again.** -/
theorem Represents.toPoint?_eq (h : Represents q P) : q.toPoint? = coordinates? P := by
  cases h with
  | infinity hq hz hP =>
    rw [Projective.toPoint?, if_pos hz, hP]
    rfl
  | @affine hq x y h hP hz hx hy =>
    have hw : (q.z : ZMod p) ≠ 0 := mt (Modular.natCast_eq_zero_iff hq.z_lt).1 hz
    have hinverse : (Modular.inverse p q.z : ZMod p) = (q.z : ZMod p)⁻¹ :=
      Modular.cast_inverse two_lt_p q.z
    rw [Projective.toPoint?, if_neg hz, hP]
    refine congrArg some (Point.mk.injEq .. ▸ ⟨?_, ?_⟩)
    · refine Modular.eq_of_cast_eq (Nat.mod_lt _ p_pos) x.val_lt ?_
      simp only [ZMod.natCast_mod, Nat.cast_mul, hinverse, hx, ZMod.natCast_zmod_val]
      field_simp
    · refine Modular.eq_of_cast_eq (Nat.mod_lt _ p_pos) y.val_lt ?_
      simp only [ZMod.natCast_mod, Nat.cast_mul, hinverse, hy, ZMod.natCast_zmod_val]
      field_simp

theorem rightSide_lt (a : Nat) : rightSide a < p :=
  Nat.mod_lt _ p_pos

theorem cast_rightSide (a : Nat) : (rightSide a : ZMod p) = (a : ZMod p) ^ 3 + 7 := by
  simp only [rightSide, ZMod.natCast_mod, Nat.cast_add, Nat.cast_mul, Nat.cast_ofNat]
  ring

theorem Point.isOnCurve_eq_true_iff {q : Point} : q.isOnCurve = true ↔
    q.x < p ∧ q.y < p ∧ q.y * q.y % p = rightSide q.x := by
  simp [Point.isOnCurve, and_assoc]

theorem nonsingular_of_isOnCurve {q : Point} (h : q.isOnCurve = true) :
    weierstrass.Nonsingular q.x q.y := by
  obtain ⟨-, -, hequation⟩ := Point.isOnCurve_eq_true_iff.1 h
  rw [nonsingular_iff, ← cast_rightSide, ← hequation, ZMod.natCast_mod, Nat.cast_mul, pow_two]

theorem coordinates?_some {q : Point} (hq : q.isOnCurve = true)
    (h : weierstrass.Nonsingular q.x q.y) : coordinates? (.some q.x q.y h) = some q := by
  obtain ⟨hx, hy, -⟩ := Point.isOnCurve_eq_true_iff.1 hq
  rw [coordinates?, ZMod.val_natCast_of_lt hx, ZMod.val_natCast_of_lt hy]

/-- **The points on the curve** are the points of the group but for the one at infinity. -/
theorem isOnCurve_iff {q : Point} : q.isOnCurve = true ↔ ∃ P, coordinates? P = some q := by
  constructor
  · intro h
    exact ⟨_, coordinates?_some h (nonsingular_of_isOnCurve h)⟩
  · rintro ⟨P, hP⟩
    cases P with
    | zero => exact absurd hP (by simp [coordinates?])
    | some x y h =>
      obtain rfl := Option.some.inj hP
      have hequation : y.val * y.val % p = rightSide x.val := by
        refine Modular.eq_of_cast_eq (Nat.mod_lt _ p_pos) (rightSide_lt _) ?_
        rw [ZMod.natCast_mod, Nat.cast_mul, cast_rightSide, ZMod.natCast_zmod_val,
          ZMod.natCast_zmod_val, ← pow_two, nonsingular_iff.1 h]
      exact Point.isOnCurve_eq_true_iff.2 ⟨x.val_lt, y.val_lt, hequation⟩

/-! ### The generator -/

theorem isOnCurve_generator : generator.isOnCurve = true := by
  decide

/-- The point that generates the group. -/
def base : Group :=
  .some generator.x generator.y (nonsingular_of_isOnCurve isOnCurve_generator)

theorem coordinates?_base : coordinates? base = some generator :=
  coordinates?_some isOnCurve_generator _

/-- **Multiples are those of the group.** -/
theorem multiply?_eq {q : Point} (h : coordinates? P = some q) (k : Nat) :
    multiply? k q = coordinates? (k • P) :=
  ((represents_ofPoint h).multiply k).toPoint?_eq

/-- **Sums of multiples are those of the group.** -/
theorem combine?_eq {q : Point} (h : coordinates? P = some q) (a b : Nat) :
    combine? a b q = coordinates? (a • base + b • P) :=
  (((represents_ofPoint coordinates?_base).multiply a).add
    ((represents_ofPoint h).multiply b)).toPoint?_eq

/-- **The generator has the order** `n`. -/
theorem addOrderOf_base : addOrderOf base = n := by
  have hmultiple : multiply? n generator = none := by decide +kernel
  have hzero : n • base = 0 := by
    rw [← coordinates?_eq_none_iff, ← multiply?_eq coordinates?_base, hmultiple]
  have hne : base ≠ 0 := by
    rw [Ne, ← coordinates?_eq_none_iff, coordinates?_base]
    simp
  exact addOrderOf_eq_prime hzero hne

theorem nsmul_base_eq_zero_iff : a • base = 0 ↔ (a : ZMod n) = 0 := by
  rw [← addOrderOf_dvd_iff_nsmul_eq_zero, addOrderOf_base, ZMod.natCast_eq_zero_iff]

theorem nsmul_base_congr (h : (a : ZMod n) = b) : a • base = b • base := by
  rw [nsmul_eq_nsmul_iff_modEq, addOrderOf_base]
  exact (ZMod.natCast_eq_natCast_iff a b n).1 h

theorem nsmul_base_neg (h : (a : ZMod n) = -b) : a • base = -(b • base) := by
  refine eq_neg_of_add_eq_zero_left ?_
  rw [← add_nsmul, nsmul_base_eq_zero_iff, Nat.cast_add, h, neg_add_cancel]

end Curve

end SpendScript
