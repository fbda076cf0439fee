import SpendScript.Proofs.Number.Codec

/-!
# Truth values and numbers

An item is read as a truth value by looking for a byte that is not zero, and as a number by putting
its bytes together.  Both agree on every item, of whatever length and however it spells its number:
true are those items that do not spell zero.

* `Number.isTrue_eq` : an item is true iff its value is not zero;
* `Number.isTrue_encode` : the item for a number is true iff the number is not zero;
* `Number.isTrue_eq_false_iff_decode?` : an item that can be read is false iff it is read as zero.
-/

namespace SpendScript

namespace Number

open Bytes (toNatLE)

variable {item rest : Bytes}

theorem isTrue_cons (b : UInt8) (h : rest ≠ []) : isTrue (b :: rest) = (b != 0 || isTrue rest) := by
  cases rest with
  | nil => exact absurd rfl h
  | cons c rest => rfl

theorem isTrue_concat (digits : Bytes) (last : UInt8) :
    isTrue (digits ++ [last]) = (digits.any (· != 0) || (last != 0 && last != 0x80)) := by
  induction digits with
  | nil => rfl
  | cons b digits ih =>
    rw [List.cons_append, isTrue_cons b (by simp), ih, List.any_cons, Bool.or_assoc]

theorem signed_bne (negative : Bool) {low : UInt8} (h : low.toNat < 128) :
    (signed negative low != 0 && signed negative low != 0x80) = (low != 0) := by
  have hsigned : (signed negative low).toNat = _ := toNat_signed h
  have hsign : (0x80 : UInt8).toNat = 128 := rfl
  rw [Bool.eq_iff_iff, Bool.and_eq_true, bne_iff_ne, bne_iff_ne, bne_iff_ne, Ne, Ne, Ne,
    ← UInt8.toNat_inj, ← UInt8.toNat_inj, ← UInt8.toNat_inj, hsigned, hsign, UInt8.toNat_zero]
  cases negative with
  | false =>
    simp only [Bool.false_eq_true, if_false, Nat.add_zero]
    omega
  | true =>
    simp only [if_true]
    omega

theorem toNatLE_bne_zero (bytes : Bytes) : (toNatLE bytes != 0) = bytes.any (· != 0) := by
  induction bytes with
  | nil => rfl
  | cons b bytes ih =>
    rw [List.any_cons, ← ih, Bool.eq_iff_iff, Bool.or_eq_true, bne_iff_ne, bne_iff_ne, bne_iff_ne,
      toNatLE, Ne, Ne, Ne, ← UInt8.toNat_inj, UInt8.toNat_zero]
    omega

theorem ofSign_bne_zero (negative : Bool) (n : Nat) : (ofSign negative n != 0) = (n != 0) := by
  rw [Bool.eq_iff_iff, bne_iff_ne, bne_iff_ne, ← Int.natAbs_ne_zero, natAbs_ofSign]

/-- **An item is true iff it does not spell zero.** -/
theorem isTrue_eq (item : Bytes) : isTrue item = (value item != 0) := by
  rcases List.eq_nil_or_concat item with rfl | ⟨digits, last, rfl⟩
  · rfl
  · obtain ⟨negative, low, hlow, rfl⟩ := exists_signed last
    rw [List.concat_eq_append, isTrue_concat, signed_bne negative hlow, value_signed hlow,
      ofSign_bne_zero, toNatLE_bne_zero, List.any_append, List.any_cons, List.any_nil,
      Bool.or_false]

theorem isTrue_eq_false_iff : isTrue item = false ↔ value item = 0 := by
  rw [isTrue_eq, bne_eq_false_iff_eq]

/-- **An item that can be read is false iff it is read as zero.** -/
theorem isTrue_eq_false_iff_decode? (h : item.length ≤ maxWidth) :
    isTrue item = false ↔ decode? item false maxWidth = some 0 := by
  rw [isTrue_eq_false_iff, decode?_of_le false (by rwa [Nat.min_self]), Bool.false_and,
    if_neg Bool.false_ne_true, Option.some.injEq]

/-- **The item for a number is true iff the number is not zero.** -/
theorem isTrue_encode (n : Int) : isTrue (encode n) = (n != 0) := by
  rw [isTrue_eq, value_encode]

end Number

end SpendScript
