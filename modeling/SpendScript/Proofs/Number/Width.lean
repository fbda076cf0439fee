import SpendScript.Machine.Operand
import SpendScript.Proofs.Bytes.Width

/-!
# Widths of encoded numbers

* `Number.natAbs_value_lt` : the number that an item spells fits into its width;
* `Number.length_encode_le` : a number that fits into `width` bytes is encoded in one more at most,
  which the sign may need;
* `Unary.natAbs_apply_le`, `Binary.natAbs_apply_le` : arithmetic makes no number larger than its
  operands together and one.
-/

namespace SpendScript

namespace Number

/-! ### Reading -/

theorem natAbs_value_le (item : Bytes) : (value item).natAbs ≤ item.toNatLE := by
  unfold value
  simp only
  split <;> omega

theorem natAbs_value_lt (item : Bytes) : (value item).natAbs < Bytes.bound item.length :=
  Nat.lt_of_le_of_lt (natAbs_value_le item) (Bytes.toNatLE_lt_bound item)

theorem natAbs_lt_of_decode? {item : Bytes} {minimal : Bool} {width : Nat} {n : Int}
    (h : decode? item minimal width = some n) : n.natAbs < Bytes.bound width := by
  unfold decode? at h
  split at h
  · exact absurd h (by simp)
  · rename_i hlen
    split at h
    · exact absurd h (by simp)
    · obtain rfl := Option.some.inj h
      have hle : item.length ≤ width := by omega
      exact Nat.lt_of_lt_of_le (natAbs_value_lt item) (Bytes.bound_mono hle)

/-! ### Writing -/

theorem length_withSign_le (negative : Bool) (digits : Bytes) :
    (withSign negative digits).length ≤ digits.length + 1 := by
  fun_induction withSign negative digits with
  | case1 => exact Nat.zero_le _
  | case2 last _ => simp
  | case3 last _ => simp
  | case4 digit rest _ ih => simpa using ih

theorem length_encode_le {n : Int} {width : Nat} (h : n.natAbs < Bytes.bound width) :
    (encode n).length ≤ width + 1 := by
  have hsign := length_withSign_le (n < 0) (Bytes.digitsLE n.natAbs)
  have hdigits := Bytes.length_digitsLE_le h
  simp only [encode]
  omega

theorem length_ofBool_le (b : Bool) : (ofBool b).length ≤ 1 := by
  cases b <;> simp [ofBool]

theorem natAbs_ofTruth_le (b : Bool) : (ofTruth b).natAbs ≤ 1 := by
  cases b <;> decide

end Number

/-! ### Arithmetic -/

theorem Constant.natAbs_value_le (c : Constant) : c.value.natAbs ≤ 16 := by
  cases c with
  | minusOne => decide
  | small n =>
    have := n.isLt
    simp only [Constant.value]
    omega

theorem Unary.natAbs_apply_le (u : Unary) (a : Int) : (u.apply a).natAbs ≤ a.natAbs + 1 := by
  cases u with
  | add1 | sub1 | negate | abs => simp only [Unary.apply]; omega
  | not | notZero =>
    exact Nat.le_trans (Number.natAbs_ofTruth_le _) (Nat.le_add_left _ _)

theorem Binary.natAbs_apply_le (op : Binary) (a b : Int) :
    (op.apply a b).natAbs ≤ Max.max (a.natAbs + b.natAbs) 1 := by
  cases op with
  | add | sub | min | max => simp only [Binary.apply]; omega
  | boolAnd | boolOr | numEqual | numNotEqual | lessThan | greaterThan | lessThanOrEqual
  | greaterThanOrEqual =>
    exact Nat.le_trans (Number.natAbs_ofTruth_le _) (Nat.le_max_right _ _)

end SpendScript
