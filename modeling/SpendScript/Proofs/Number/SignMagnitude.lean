import SpendScript.Number
import SpendScript.Proofs.Bytes.Digits
import Mathlib.Data.Nat.Bitwise

/-!
# Sign and magnitude

Every item but the empty one ends with a byte that holds the sign in its high bit and the top of
the magnitude below it (`Number.exists_signed`).  Cut there, an item spells its magnitude with the
sign taken off (`Number.value_signed`), and a number is written by putting the sign on its digits,
into the last of them if its high bit is free (`Number.withSign_concat_of_lt`) and else into one
more byte (`Number.withSign_concat_of_le`).

* `Number.value_encode` : a number reads back from what it is written as;
* `Number.encode_value_eq_iff` : what an item spells is written as that item iff it is minimal;
* `Number.length_encode_le_iff` : how many bytes a number needs;
* `Number.length_encode_value_le` : no item is shorter than what it spells is written as.
-/

namespace SpendScript

namespace Number

open Bytes (bound toNatLE digitsLE)

/-! ### The sign -/

/-- The last byte of an item, from a sign and the top of the magnitude, which leaves the high bit
free. -/
def signed (negative : Bool) (low : UInt8) : UInt8 :=
  if negative then low ||| 0x80 else low

/-- The number with this sign and magnitude. -/
def ofSign (negative : Bool) (n : Nat) : Int :=
  if negative then -n else n

variable {negative : Bool} {digits : Bytes} {last low : UInt8} {n : Int} {item : Bytes} {k : Nat}

theorem toNat_signed (h : low.toNat < 128) :
    (signed negative low).toNat = low.toNat + if negative then 128 else 0 := by
  cases negative with
  | false => rfl
  | true =>
    have hor : 2 ^ 7 * 1 + low.toNat = 2 ^ 7 * 1 ||| low.toNat :=
      Nat.two_pow_add_eq_or_of_lt h 1
    rw [signed, if_pos rfl, if_pos rfl, UInt8.toNat_or, Nat.or_comm]
    exact hor.symm.trans (Nat.add_comm _ _)

theorem toNat_and_low (b : UInt8) : (b &&& 0x7f).toNat = b.toNat % 128 := by
  rw [UInt8.toNat_and]
  exact Nat.and_two_pow_sub_one_eq_mod b.toNat 7

theorem exists_signed (b : UInt8) :
    ∃ negative low, low.toNat < 128 ∧ b = signed negative low := by
  have hb := b.toNat_lt
  have hlow : (b &&& 0x7f).toNat < 128 := by
    rw [toNat_and_low]
    exact Nat.mod_lt _ (by decide)
  refine ⟨128 ≤ b.toNat, b &&& 0x7f, hlow, UInt8.toNat.inj ?_⟩
  simp only [toNat_signed hlow, toNat_and_low, decide_eq_true_eq]
  split <;> omega

theorem and_sign_ne_zero_iff (b : UInt8) : (b &&& 0x80 != 0) = true ↔ 128 ≤ b.toNat := by
  have hb := b.toNat_lt
  have hbit : (b &&& 0x80).toNat = (b.toNat.testBit 7).toNat * 128 := by
    rw [UInt8.toNat_and]
    exact Nat.and_two_pow b.toNat 7
  rw [bne_iff_ne, Ne, ← UInt8.toNat_inj, hbit, Nat.testBit_eq_decide_div_mod_eq]
  by_cases h : b.toNat / 2 ^ 7 % 2 = 1
  · simp only [h, decide_true, Bool.toNat_true]
    exact iff_of_true (by decide) (by omega)
  · simp only [h, decide_false, Bool.toNat_false]
    exact iff_of_false (by decide) (by omega)

theorem signed_and_ne_zero_iff (negative : Bool) (h : low.toNat < 128) :
    (signed negative low &&& 0x7f != 0) = true ↔ low ≠ 0 := by
  have hlow : signed negative low &&& 0x7f = low := by
    refine UInt8.toNat.inj ?_
    rw [toNat_and_low, toNat_signed h]
    split <;> omega
  rw [hlow, bne_iff_ne]

@[simp] theorem natAbs_ofSign (negative : Bool) (m : Nat) : (ofSign negative m).natAbs = m := by
  cases negative <;> simp [ofSign]

theorem ofSign_natAbs (n : Int) : ofSign (n < 0) n.natAbs = n := by
  by_cases h : n < 0
  · simp only [ofSign, h, decide_true, if_true]
    omega
  · simp only [ofSign, h, decide_false, Bool.false_eq_true, if_false]
    omega

/-! ### Reading -/

/-- **An item spells the magnitude that is left when the sign is taken off its last byte.** -/
theorem value_signed (h : low.toNat < 128) :
    value (digits ++ [signed negative low]) = ofSign negative (toNatLE (digits ++ [low])) := by
  have hdigits := Bytes.toNatLE_lt_bound digits
  have hlow : bound digits.length * low.toNat ≤ bound digits.length * 127 :=
    Nat.mul_le_mul_left _ (by omega)
  have hwidth : (digits ++ [signed negative low]).length - 1 = digits.length := by simp
  simp only [value, signBit, hwidth, Bytes.toNatLE_concat, toNat_signed h, Nat.mul_add]
  cases negative with
  | true =>
    -- the sign bit weighs more than all the rest
    rw [if_pos ⟨by simp, by simp only [if_true]; omega⟩]
    simp only [ofSign, if_true]
    omega
  | false =>
    rw [if_neg fun hc => by simp only [Bool.false_eq_true, if_false] at hc; omega]
    simp [ofSign]

theorem toNatLE_concat_lt_signBit (digits : Bytes) (h : last.toNat < 128) :
    toNatLE (digits ++ [last]) < signBit (digits.length + 1) := by
  have hdigits := Bytes.toNatLE_lt_bound digits
  have hlast : bound digits.length * last.toNat ≤ bound digits.length * 127 :=
    Nat.mul_le_mul_left _ (by omega)
  simp only [signBit, Nat.add_sub_cancel, Bytes.toNatLE_concat]
  omega

/-! ### Writing -/

theorem withSign_cons {digit : UInt8} (h : digits ≠ []) :
    withSign negative (digit :: digits) = digit :: withSign negative digits := by
  cases digits with
  | nil => exact absurd rfl h
  | cons _ _ => rfl

theorem withSign_concat_of_lt (h : last.toNat < 128) :
    withSign negative (digits ++ [last]) = digits ++ [signed negative last] := by
  have hfree : ¬ (last &&& 0x80 != 0) = true := by
    rw [and_sign_ne_zero_iff]
    omega
  induction digits with
  | nil => simp only [List.nil_append, withSign, if_neg hfree, signed]
  | cons digit digits ih =>
    rw [List.cons_append, withSign_cons (by simp), ih]
    rfl

theorem withSign_concat_of_le (h : 128 ≤ last.toNat) :
    withSign negative (digits ++ [last]) = digits ++ [last] ++ [signed negative 0] := by
  have htaken : (last &&& 0x80 != 0) = true := (and_sign_ne_zero_iff last).2 h
  induction digits with
  | nil =>
    simp only [List.nil_append, withSign, if_pos htaken]
    cases negative <;> rfl
  | cons digit digits ih =>
    rw [List.cons_append, withSign_cons (by simp), ih]
    rfl

@[simp] theorem encode_zero : encode 0 = [] := by
  simp [encode, Bytes.digitsLE, withSign]

theorem encode_ofSign {m : Nat} (hm : m ≠ 0) (negative : Bool) :
    encode (ofSign negative m) = withSign negative (digitsLE m) := by
  have hsign : decide (ofSign negative m < 0) = negative := by
    cases negative
    · simp [ofSign]
    · simp only [ofSign, if_true, decide_eq_true_eq]
      omega
  rw [encode, hsign, natAbs_ofSign]

/-- **A number reads back from what it is written as.** -/
theorem value_encode (n : Int) : value (encode n) = n := by
  by_cases hn : n = 0
  · rw [hn, encode_zero]
    rfl
  · have hm : n.natAbs ≠ 0 := Int.natAbs_ne_zero.2 hn
    obtain ⟨digits, last, -, hdigits⟩ := Bytes.exists_digitsLE_eq hm
    have hspelt : toNatLE (digits ++ [last]) = n.natAbs := by
      rw [← hdigits, Bytes.toNatLE_digitsLE]
    rw [encode, hdigits]
    by_cases hlast : last.toNat < 128
    · rw [withSign_concat_of_lt hlast, value_signed hlast, hspelt, ofSign_natAbs]
    · -- the byte for the sign adds nothing to the magnitude
      have hzero : toNatLE (digits ++ [last] ++ [0]) = n.natAbs := by
        rw [Bytes.toNatLE_concat, hspelt, UInt8.toNat_zero, Nat.mul_zero, Nat.add_zero]
      rw [withSign_concat_of_le (Nat.not_lt.1 hlast), value_signed (by decide), hzero,
        ofSign_natAbs]

/-! ### Widths -/

theorem signBit_eq_two_pow (hk : 0 < k) : signBit k = 2 ^ (8 * k - 1) := by
  obtain ⟨j, rfl⟩ := Nat.exists_eq_succ_of_ne_zero (Nat.ne_of_gt hk)
  have hexp : 8 * (j + 1) - 1 = 7 + 8 * j := by omega
  rw [signBit, Nat.succ_sub_one, Bytes.bound_eq_two_pow, Nat.succ_eq_add_one, hexp, Nat.pow_add]

theorem signBit_mono {j : Nat} (h : j ≤ k) : signBit j ≤ signBit k :=
  Nat.mul_le_mul_left _ (Bytes.bound_mono (Nat.sub_le_sub_right h 1))

theorem signBit_le_bound (hk : 0 < k) : signBit k ≤ bound k := by
  obtain ⟨j, rfl⟩ := Nat.exists_eq_succ_of_ne_zero (Nat.ne_of_gt hk)
  simp only [signBit, Nat.succ_eq_add_one, Nat.add_sub_cancel, bound]
  omega

theorem succ_le_iff_lt_signBit {j m : Nat} (hlower : ∀ k, 0 < k → k ≤ j → signBit k ≤ m)
    (hupper : m < signBit (j + 1)) (hk : 0 < k) : j + 1 ≤ k ↔ m < signBit k := by
  constructor
  · intro hle
    exact Nat.lt_of_lt_of_le hupper (signBit_mono hle)
  · intro hlt
    by_contra hle
    exact absurd (hlower k hk (by omega)) (Nat.not_le.2 hlt)

/-- **A number fits into `k` bytes iff its magnitude is below their sign bit.** -/
theorem length_encode_le_iff (hk : 0 < k) : (encode n).length ≤ k ↔ n.natAbs < signBit k := by
  by_cases hn : n = 0
  · have hpos := Bytes.bound_pos (k - 1)
    rw [hn, encode_zero]
    refine iff_of_true (Nat.zero_le _) ?_
    simp only [Int.natAbs_zero, signBit]
    omega
  · obtain ⟨digits, last, hne, hdigits⟩ := Bytes.exists_digitsLE_eq (Int.natAbs_ne_zero.2 hn)
    have hspelt : n.natAbs = toNatLE (digits ++ [last]) := by
      rw [← hdigits, Bytes.toNatLE_digitsLE]
    rw [encode, hdigits, hspelt]
    by_cases hlast : last.toNat < 128
    · -- the sign goes into the last digit
      rw [withSign_concat_of_lt hlast, List.length_append, List.length_singleton]
      refine succ_le_iff_lt_signBit (fun k hk hle => ?_) ?_ hk
      · calc signBit k ≤ bound k := signBit_le_bound hk
          _ ≤ bound digits.length := Bytes.bound_mono hle
          _ ≤ toNatLE (digits ++ [last]) := Bytes.bound_le_toNatLE_concat digits hne
      · exact toNatLE_concat_lt_signBit digits hlast
    · -- the sign takes a byte of its own
      rw [withSign_concat_of_le (Nat.not_lt.1 hlast), List.length_append, List.length_append,
        List.length_singleton]
      refine succ_le_iff_lt_signBit (fun k _ hle => ?_) ?_ hk
      · have hmul := Nat.mul_le_mul_left (bound digits.length) (Nat.not_lt.1 hlast)
        calc signBit k ≤ signBit (digits.length + 1) := signBit_mono hle
          _ ≤ toNatLE (digits ++ [last]) := by
            simp only [signBit, Nat.add_sub_cancel, Bytes.toNatLE_concat]
            omega
      · have hlt := Bytes.toNatLE_lt_bound (digits ++ [last])
        rw [List.length_append, List.length_singleton] at hlt
        calc toNatLE (digits ++ [last]) < bound (digits.length + 1) := hlt
          _ ≤ signBit (digits.length + 1 + 1) := by
            simp only [signBit, Nat.add_sub_cancel]
            omega

/-- A magnitude that leaves the high bit of its last byte free needs no byte for the sign. -/
theorem length_encode_ofSign_le (negative : Bool)
    (h : ∀ front previous, digits = front ++ [previous] → previous.toNat < 128) :
    (encode (ofSign negative (toNatLE digits))).length ≤ digits.length := by
  rcases List.eq_nil_or_concat digits with rfl | ⟨front, previous, rfl⟩
  · have hzero : ofSign negative (toNatLE []) = 0 := by cases negative <;> rfl
    rw [hzero, encode_zero]
  · rw [List.concat_eq_append] at h ⊢
    have hpos : 0 < (front ++ [previous]).length := by simp
    rw [length_encode_le_iff hpos, natAbs_ofSign, List.length_append, List.length_singleton]
    exact toNatLE_concat_lt_signBit front (h front previous rfl)

/-- **No item is shorter than what it spells is written as.** -/
theorem length_encode_value_le (item : Bytes) : (encode (value item)).length ≤ item.length := by
  rcases List.eq_nil_or_concat item with rfl | ⟨digits, last, rfl⟩
  · have hvalue : value [] = 0 := rfl
    rw [hvalue, encode_zero]
  · rw [List.concat_eq_append]
    obtain ⟨negative, low, hlow, rfl⟩ := exists_signed last
    have hfree : ∀ front previous, digits ++ [low] = front ++ [previous] →
        previous.toNat < 128 := by
      intro front previous heq
      obtain ⟨-, hlast⟩ := List.append_inj' heq rfl
      rwa [← List.singleton_inj.1 hlast]
    have hle := length_encode_ofSign_le negative hfree
    rw [value_signed hlow]
    simpa using hle

/-! ### Minimal items -/

/-- An item is minimal if its last byte holds a part of the magnitude, or the byte before leaves
the sign no room. -/
theorem isMinimal_signed_iff (h : low.toNat < 128) :
    isMinimal (digits ++ [signed negative low]) = true ↔
      low ≠ 0 ∨ ∃ front previous, digits = front ++ [previous] ∧ 128 ≤ previous.toNat := by
  rw [← signed_and_ne_zero_iff negative h]
  rcases List.eq_nil_or_concat digits with rfl | ⟨front, previous, rfl⟩
  · simp [isMinimal]
  · rw [List.concat_eq_append]
    have hminimal : isMinimal (front ++ [previous] ++ [signed negative low]) =
        (signed negative low &&& 0x7f != 0 || previous &&& 0x80 != 0) := by
      simp [isMinimal]
    rw [hminimal, Bool.or_eq_true, and_sign_ne_zero_iff]
    refine or_congr_right ⟨fun hprevious => ⟨front, previous, rfl, hprevious⟩, ?_⟩
    rintro ⟨front', previous', heq, hprevious⟩
    obtain ⟨-, hlast⟩ := List.append_inj' heq rfl
    rwa [List.singleton_inj.1 hlast]

/-- **What an item spells is written as that item iff the item is minimal.** -/
theorem encode_value_eq_iff (item : Bytes) :
    encode (value item) = item ↔ isMinimal item = true := by
  rcases List.eq_nil_or_concat item with rfl | ⟨digits, last, rfl⟩
  · have hvalue : value [] = 0 := rfl
    rw [hvalue, encode_zero]
    exact iff_of_true rfl rfl
  · rw [List.concat_eq_append]
    obtain ⟨negative, low, hlow, rfl⟩ := exists_signed last
    rw [isMinimal_signed_iff hlow, value_signed hlow]
    by_cases hne : low = 0
    · -- the last byte holds nothing but the sign
      subst hne
      have hspelt : toNatLE (digits ++ [0]) = toNatLE digits := by
        rw [Bytes.toNatLE_concat, UInt8.toNat_zero, Nat.mul_zero, Nat.add_zero]
      rw [hspelt]
      by_cases hfull : ∃ front previous, digits = front ++ [previous] ∧ 128 ≤ previous.toNat
      · obtain ⟨front, previous, rfl, hprevious⟩ := hfull
        have hprevious_ne : previous ≠ 0 := by
          rintro rfl
          exact absurd hprevious (by decide)
        have hlower := Bytes.bound_le_toNatLE_concat front hprevious_ne
        have hpos := Bytes.bound_pos front.length
        rw [encode_ofSign (by omega), Bytes.digitsLE_toNatLE_concat hprevious_ne,
          withSign_concat_of_le hprevious]
        exact iff_of_true rfl (.inr ⟨front, previous, rfl, hprevious⟩)
      · -- the magnitude fits into the bytes before
        have hle := length_encode_ofSign_le negative fun front previous heq =>
          Nat.lt_of_not_le fun hprevious => hfull ⟨front, previous, heq, hprevious⟩
        refine iff_of_false (fun heq => ?_) (not_or.2 ⟨not_not.2 rfl, hfull⟩)
        rw [heq, List.length_append, List.length_singleton] at hle
        omega
    · have hspelt := Bytes.bound_le_toNatLE_concat digits hne
      have hpos := Bytes.bound_pos digits.length
      rw [encode_ofSign (by omega), Bytes.digitsLE_toNatLE_concat hne, withSign_concat_of_lt hlow]
      exact iff_of_true rfl (.inl hne)

theorem isMinimal_encode (n : Int) : isMinimal (encode n) = true := by
  rw [← encode_value_eq_iff, value_encode]

end Number

end SpendScript
