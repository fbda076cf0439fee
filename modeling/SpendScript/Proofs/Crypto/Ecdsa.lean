import SpendScript.Crypto.Ecdsa
import SpendScript.Proofs.Crypto.Group

/-!
# Signatures that are made are valid

A signature `(r, s)` of `z` is about the multiple `c` of the generator for which `c * s` is
`z + r * d` modulo the order of the group, where `d` is the secret key: it is valid if `r` is the
first coordinate of this point (`Ecdsa.holds_iff`).  For a signature that is made, `c` is the nonce;
and with the negative of `s` it is the negative, which has the same first coordinate.

* `Ecdsa.holds_lowS` : so a signature may be brought to the form with the smaller second number;
* `Ecdsa.signWith?_spec` : what a nonce gives is a signature in this form that is valid;
* `Ecdsa.sign_spec` : so what is made is valid, unless no nonce was found.
-/

namespace SpendScript

namespace Ecdsa

open Curve

variable {d z r s c k : Nat} {q : Point}

theorem two_lt_n : 2 < n := by decide

theorem n_pos : 0 < n := prime_n.pos

theorem cast_inverse (a : Nat) : (Modular.inverse n a : ZMod n) = (a : ZMod n)⁻¹ :=
  Modular.cast_inverse two_lt_n a

/-- **A signature is about a multiple of the generator.** -/
theorem holds_iff (hq : coordinates? (d • base) = some q) (hs : (s : ZMod n) ≠ 0)
    (hc : (c * s : ZMod n) = z + r * d) :
    holds q z r s = true ↔ (firstCoordinate? (c • base)).map (· % n) = some r := by
  have hcombine : combine? (z * Modular.inverse n s % n) (r * Modular.inverse n s % n) q =
      coordinates? (c • base) := by
    rw [combine?_eq hq, ← mul_nsmul', ← add_nsmul]
    refine congrArg coordinates? (nsmul_base_congr ?_)
    simp only [Nat.cast_add, Nat.cast_mul, ZMod.natCast_mod, cast_inverse]
    field_simp
    linear_combination -hc
  rw [holds, firstCoordinate?]
  simp only [hcombine]
  cases coordinates? (c • base) with
  | none => simp
  | some R => simp

theorem exists_multiple (hs : (s : ZMod n) ≠ 0) (z r d : Nat) :
    ∃ c : Nat, (c * s : ZMod n) = z + r * d := by
  refine ⟨((z + r * d : ZMod n) / s).val, ?_⟩
  rw [ZMod.natCast_zmod_val, div_mul_cancel₀ _ hs]

/-- **Of the two signatures that differ in the sign of the second number** both are valid if one
is. -/
theorem holds_lowS (hq : coordinates? (d • base) = some q) (hpos : 0 < s) (hlt : s < n)
    (z r : Nat) : holds q z r (lowS s) = holds q z r s := by
  unfold lowS
  split
  · have hs := Modular.natCast_ne_zero hpos hlt
    have hneg : ((n - s : Nat) : ZMod n) = -s := Modular.cast_self_sub hlt.le
    have hs' : ((n - s : Nat) : ZMod n) ≠ 0 := by
      rw [hneg]
      exact neg_ne_zero.2 hs
    obtain ⟨c, hc⟩ := exists_multiple hs z r d
    obtain ⟨c', hc'⟩ := exists_multiple hs' z r d
    have hmultiple : c' • base = -(c • base) := by
      refine nsmul_base_neg (mul_right_cancel₀ hs ?_)
      rw [hneg] at hc'
      linear_combination hc - hc'
    rw [Bool.eq_iff_iff, holds_iff hq hs hc, holds_iff hq hs' hc', hmultiple, firstCoordinate?_neg]
  · rfl

/-! ### The form with the smaller second number -/

theorem lowS_le (h : s < n) : lowS s ≤ n / 2 := by
  have hodd : n % 2 = 1 := by decide
  unfold lowS
  split <;> omega

theorem lowS_of_le (h : s ≤ n / 2) : lowS s = s :=
  if_neg (Nat.not_lt.2 h)

theorem lowS_pos_iff (h : s < n) : 0 < lowS s ↔ 0 < s := by
  unfold lowS
  split <;> omega

/-! ### Making signatures -/

/-- A signature that is in form and valid. -/
structure Valid (q : Point) (z r s : Nat) : Prop where
  /-- The first number is not zero. -/
  r_pos : 0 < r
  /-- The first number is a residue. -/
  r_lt : r < n
  /-- The second number is not zero. -/
  s_pos : 0 < s
  /-- The second number is the smaller one of two. -/
  s_le : s ≤ n / 2
  /-- The equation holds. -/
  holds : holds q z r s = true

theorem Valid.verify (h : Valid q z r s) : verify q z r s = true := by
  have hr : r ≠ 0 := Nat.ne_of_gt h.r_pos
  have hs : s ≠ 0 := Nat.ne_of_gt h.s_pos
  simp [Ecdsa.verify, hr, hs, lowS_of_le h.s_le, h.holds]

/-- The second number of the signature that a nonce gives solves the equation about the nonce. -/
theorem mul_inverse_mod (hk : (k : ZMod n) ≠ 0) (a : Nat) :
    (k * (Modular.inverse n k * (a % n) % n : Nat) : ZMod n) = a := by
  rw [ZMod.natCast_mod, Nat.cast_mul, ZMod.natCast_mod, cast_inverse, mul_inv_cancel_left₀ hk]

theorem signWith?_eq_some (h : signWith? d z k = some (r, s)) :
    ∃ R s₀, 0 < k ∧ k < n ∧ multiply? k generator = some R ∧ r = R.x % n ∧ 0 < r ∧
      s₀ = Modular.inverse n k * ((z + r * d) % n) % n ∧ s = lowS s₀ ∧ 0 < s := by
  unfold signWith? at h
  by_cases hk : k = 0 ∨ n ≤ k
  · rw [if_pos hk] at h
    exact nomatch h
  · rw [if_neg hk] at h
    obtain ⟨R, hR, h⟩ := Option.bind_eq_some_iff.1 h
    obtain ⟨hne, hsignature⟩ := Option.ite_none_left_eq_some.1 h
    obtain ⟨rfl, rfl⟩ := Prod.mk.inj (Option.some.inj hsignature)
    exact ⟨R, _, by omega, by omega, hR, rfl, Nat.pos_of_ne_zero fun h0 => hne (.inl h0), rfl, rfl,
      Nat.pos_of_ne_zero fun h0 => hne (.inr h0)⟩

/-- **What a nonce gives is valid.** -/
theorem signWith?_spec (hq : coordinates? (d • base) = some q)
    (h : signWith? d z k = some (r, s)) : Valid q z r s := by
  obtain ⟨R, s₀, hk, hk_lt, hR, hr, hr_pos, hs₀, rfl, hs⟩ := signWith?_eq_some h
  rw [multiply?_eq coordinates?_base] at hR
  have hlt : s₀ < n := hs₀ ▸ Nat.mod_lt _ n_pos
  have hpos : 0 < s₀ := (lowS_pos_iff hlt).1 hs
  have hc : (k * s₀ : ZMod n) = z + r * d := by
    rw [hs₀, mul_inverse_mod (Modular.natCast_ne_zero hk hk_lt), Nat.cast_add, Nat.cast_mul]
  have hholds : holds q z r s₀ = true := by
    rw [holds_iff hq (Modular.natCast_ne_zero hpos hlt) hc, firstCoordinate?, hR, hr]
    rfl
  exact {
    r_pos := hr_pos
    r_lt := hr ▸ Nat.mod_lt _ n_pos
    s_pos := hs
    s_le := lowS_le hlt
    holds := (holds_lowS hq hpos hlt z r).trans hholds }

/-- Among some nonces, either none will do, or the signature is what one of them gives. -/
theorem signFrom_cases (d z tries : Nat) (state : NonceState) :
    signFrom d z tries state = (0, 0) ∨
      ∃ k, signWith? d z k = some (signFrom d z tries state) := by
  induction tries generalizing state with
  | zero => exact .inl rfl
  | succ tries ih =>
    simp only [signFrom]
    cases hk : signWith? d z state.next.block.toNatBE with
    | none => exact ih state.next.retry
    | some signature => exact .inr ⟨_, hk⟩

theorem sign_ne_zero (h : signWith? d z (NonceState.ofSeed
    (Bytes.ofNatBE 32 d ++ Bytes.ofNatBE 32 z)).next.block.toNatBE ≠ none) : sign d z ≠ (0, 0) := by
  obtain ⟨⟨r, s⟩, hfirst⟩ := Option.ne_none_iff_exists'.1 h
  have hsign : sign d z = signFrom d z (0xffffffff + 1) _ := rfl
  obtain ⟨R, s₀, -, -, -, -, hr, -⟩ := signWith?_eq_some hfirst
  rw [hsign, signFrom]
  simp only [hfirst]
  exact fun hzero => Nat.ne_of_gt hr (congrArg Prod.fst hzero)

/-- **What is made is valid**, unless no nonce was found. -/
theorem sign_spec (hq : coordinates? (d • base) = some q) (hnonce : sign d z ≠ (0, 0)) :
    Valid q z (sign d z).1 (sign d z).2 := by
  -- the number of tries is made a variable, so that nothing counts it down
  have hsign : ∃ tries state, sign d z = signFrom d z tries state := ⟨_, _, rfl⟩
  obtain ⟨tries, state, hsign⟩ := hsign
  rw [hsign] at hnonce ⊢
  obtain ⟨k, hk⟩ := (signFrom_cases d z tries state).resolve_left hnonce
  exact signWith?_spec hq hk

end Ecdsa

end SpendScript
