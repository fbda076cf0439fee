import SpendScript.Proofs.Number.Codec

/-!
# Operands of arithmetic

An item is taken as an operand if it is minimal and has at most four bytes (`Number.IsOperand`).

* `Number.decode?_operand` : these are the items that are read;
* `Number.isOperand_encode_iff` : they are the encodings of the numbers up to `2 ^ 31 - 1`.
-/

namespace SpendScript

namespace Number

/-- The item is minimal and has at most four bytes. -/
def IsOperand (item : Bytes) : Prop :=
  item.length ≤ 4 ∧ isMinimal item = true

instance (item : Bytes) : Decidable (IsOperand item) :=
  inferInstanceAs (Decidable (_ ∧ _))

variable {item : Bytes} {n : Nat}

theorem decode?_operand (item : Bytes) :
    decode? item true operandWidth = if IsOperand item then some (value item) else none := by
  by_cases hitem : IsOperand item
  · rw [if_pos hitem, decode?_of_le true hitem.1, hitem.2]
    rfl
  · rw [if_neg hitem]
    by_cases hlength : item.length ≤ 4
    · have hminimal : isMinimal item = false := by
        rw [← Bool.not_eq_true]
        exact fun hminimal => hitem ⟨hlength, hminimal⟩
      rw [decode?_of_le true hlength, hminimal]
      rfl
    · exact if_pos (Nat.not_le.1 hlength)

/-- **The encodings of the numbers up to** `2 ^ 31 - 1` are operands, and no others are. -/
theorem isOperand_encode_iff (k : Int) : IsOperand (encode k) ↔ k.natAbs ≤ 2 ^ 31 - 1 := by
  have hlength : (encode k).length ≤ 4 ↔ k.natAbs < 2 ^ 31 := length_encode_le_iff (by decide)
  rw [IsOperand, hlength]
  constructor
  · rintro ⟨hlt, -⟩
    omega
  · intro hle
    exact ⟨by omega, isMinimal_encode k⟩

theorem encode_value_of_isOperand (h : IsOperand item) : encode (value item) = item :=
  (encode_value_eq_iff item).2 h.2

theorem natAbs_value_le_of_isOperand (h : IsOperand item) : (value item).natAbs ≤ 2 ^ 31 - 1 := by
  rwa [← isOperand_encode_iff, encode_value_of_isOperand h]

theorem isOperand_encode (h : n ≤ 20) : IsOperand (encode n) := by
  rw [isOperand_encode_iff, Int.natAbs_natCast]
  omega

theorem isOperand_cases (item : Bytes) (most : Nat) :
    ¬ IsOperand item ∨ (IsOperand item ∧ (value item < 0 ∨ (most : Int) < value item)) ∨
      ∃ n : Nat, n ≤ most ∧ item = encode n := by
  by_cases hitem : IsOperand item
  · by_cases hrange : value item < 0 ∨ (most : Int) < value item
    · exact .inr (.inl ⟨hitem, hrange⟩)
    · refine .inr (.inr ⟨(value item).toNat, by omega, ?_⟩)
      rw [Int.toNat_of_nonneg (by omega), encode_value_of_isOperand hitem]
  · exact .inl hitem

end Number

end SpendScript
