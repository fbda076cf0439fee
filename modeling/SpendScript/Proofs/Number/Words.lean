import SpendScript.Machine.Operand
import SpendScript.Proofs.Number.Operand

/-!
# Arithmetic in words

Arithmetic can be done in signed words of 64 bits (`Unary.word?`, `Binary.word?`).  Sums,
differences and negatives are checked: there is none if the exact number is no word.

* `Unary.word?_eq_some`, `Binary.word?_eq_some` : on operands words compute the exact functions, and
  nothing overflows.
-/

namespace SpendScript

namespace Number

/-- The sum of two words, unless it is no word. -/
def add? (a b : Int64) : Option Int64 :=
  if a.toBitVec.saddOverflow b.toBitVec then none else some (a + b)

/-- The difference of two words, unless it is no word. -/
def sub? (a b : Int64) : Option Int64 :=
  if a.toBitVec.ssubOverflow b.toBitVec then none else some (a - b)

/-- One for true and zero for false. -/
def truthWord (b : Bool) : Int64 :=
  if b then 1 else 0

variable {a b : Int64}

theorem add?_eq_some (hlower : -2 ^ 63 ≤ a.toInt + b.toInt) (hupper : a.toInt + b.toInt < 2 ^ 63) :
    ∃ sum, add? a b = some sum ∧ sum.toInt = a.toInt + b.toInt := by
  have hno : ¬ a.toBitVec.saddOverflow b.toBitVec = true := by
    rw [BitVec.saddOverflow, Bool.or_eq_true, decide_eq_true_eq, decide_eq_true_eq]
    rintro (hover | hunder)
    · exact absurd hupper (Int.not_lt.2 hover)
    · exact absurd hunder (Int.not_lt.2 hlower)
  exact ⟨a + b, if_neg hno, BitVec.toInt_add_of_not_saddOverflow hno⟩

theorem sub?_eq_some (hlower : -2 ^ 63 ≤ a.toInt - b.toInt) (hupper : a.toInt - b.toInt < 2 ^ 63) :
    ∃ difference, sub? a b = some difference ∧ difference.toInt = a.toInt - b.toInt := by
  have hno : ¬ a.toBitVec.ssubOverflow b.toBitVec = true := by
    rw [BitVec.ssubOverflow, Bool.or_eq_true, decide_eq_true_eq, decide_eq_true_eq]
    rintro (hover | hunder)
    · exact absurd hupper (Int.not_lt.2 hover)
    · exact absurd hunder (Int.not_lt.2 hlower)
  exact ⟨a - b, if_neg hno, BitVec.toInt_sub_of_not_ssubOverflow hno⟩

theorem negate?_eq_some (h : a.toInt ≠ -2 ^ 63) :
    ∃ negated, negate? a = some negated ∧ negated.toInt = -a.toInt := by
  have hne : a ≠ Int64.minValue := by
    rintro rfl
    exact h rfl
  have hlower := a.le_toInt
  have hupper := a.toInt_lt
  refine ⟨-a, if_neg hne, ?_⟩
  rw [Int64.toInt_neg, Int.bmod_eq_of_le (by omega) (by omega)]

theorem toInt_truthWord (b : Bool) : (truthWord b).toInt = ofTruth b := by
  cases b <;> rfl

theorem beq_eq_toInt (a b : Int64) : (a == b) = (a.toInt == b.toInt) := by
  rw [Bool.eq_iff_iff, beq_iff_eq, beq_iff_eq, Int64.toInt_inj]

theorem bne_eq_toInt (a b : Int64) : (a != b) = (a.toInt != b.toInt) := by
  rw [bne, bne, beq_eq_toInt]

end Number

open Number (add? sub? negate? truthWord)

/-- The function of one word, unless it overflows. -/
def Unary.word? : Unary → Int64 → Option Int64
  | .add1, a => add? a 1
  | .sub1, a => sub? a 1
  | .negate, a => negate? a
  | .abs, a => if a < 0 then negate? a else some a
  | .not, a => some (truthWord (a == 0))
  | .notZero, a => some (truthWord (a != 0))

/-- The function of two words, the lower one first, unless it overflows. -/
def Binary.word? : Binary → Int64 → Int64 → Option Int64
  | .add, a, b => add? a b
  | .sub, a, b => sub? a b
  | .boolAnd, a, b => some (truthWord (a != 0 && b != 0))
  | .boolOr, a, b => some (truthWord (a != 0 || b != 0))
  | .numEqual, a, b => some (truthWord (a == b))
  | .numNotEqual, a, b => some (truthWord (a != b))
  | .lessThan, a, b => some (truthWord (a < b))
  | .greaterThan, a, b => some (truthWord (b < a))
  | .lessThanOrEqual, a, b => some (truthWord (a ≤ b))
  | .greaterThanOrEqual, a, b => some (truthWord (b ≤ a))
  | .min, a, b => some (if a ≤ b then a else b)
  | .max, a, b => some (if a ≤ b then b else a)

/-- **Words compute the exact function of one operand.** -/
theorem Unary.word?_eq_some (u : Unary) {a : Int64} (ha : a.toInt.natAbs ≤ 2 ^ 31 - 1) :
    ∃ word, u.word? a = some word ∧ word.toInt = u.apply a.toInt := by
  have hone : (1 : Int64).toInt = 1 := rfl
  have hzero : (0 : Int64).toInt = 0 := rfl
  have hnegate := Number.negate?_eq_some (a := a) (by omega)
  cases u with
  | add1 => exact Number.add?_eq_some (by omega) (by omega)
  | sub1 => exact Number.sub?_eq_some (by omega) (by omega)
  | negate => exact hnegate
  | abs =>
    simp only [word?, apply, Int64.lt_iff_toInt_lt, hzero]
    split
    · obtain ⟨negated, hsome, hvalue⟩ := hnegate
      exact ⟨negated, hsome, by omega⟩
    · exact ⟨a, rfl, by omega⟩
  | not => exact ⟨_, rfl, by rw [Number.toInt_truthWord, Number.beq_eq_toInt]; rfl⟩
  | notZero => exact ⟨_, rfl, by rw [Number.toInt_truthWord, Number.bne_eq_toInt]; rfl⟩

/-- **Words compute the exact function of two operands.** -/
theorem Binary.word?_eq_some (op : Binary) {a b : Int64} (ha : a.toInt.natAbs ≤ 2 ^ 31 - 1)
    (hb : b.toInt.natAbs ≤ 2 ^ 31 - 1) :
    ∃ word, op.word? a b = some word ∧ word.toInt = op.apply a.toInt b.toInt := by
  cases op with
  | add => exact Number.add?_eq_some (by omega) (by omega)
  | sub => exact Number.sub?_eq_some (by omega) (by omega)
  | min =>
    refine ⟨_, rfl, ?_⟩
    simp only [apply, Int64.le_iff_toInt_le]
    split <;> omega
  | max =>
    refine ⟨_, rfl, ?_⟩
    simp only [apply, Int64.le_iff_toInt_le]
    split <;> omega
  | boolAnd | boolOr | numEqual | numNotEqual | lessThan | greaterThan | lessThanOrEqual
  | greaterThanOrEqual =>
    refine ⟨_, rfl, ?_⟩
    simp only [Number.toInt_truthWord, Number.beq_eq_toInt, Number.bne_eq_toInt,
      Int64.lt_iff_toInt_lt, Int64.le_iff_toInt_le]
    rfl

end SpendScript
