import SpendScript.Machine.Operand
import SpendScript.Proofs.Effect
import SpendScript.Proofs.Number.Operand
import SpendScript.Proofs.Number.Width

/-!
# Operations with their operands on top

What an operation makes of a stack that has its operands on top of other items, as an equation: it
leaves its result in their place, as long as the result is not too long and there is room for it.

* `Stack.push_eq_ok`, `Stack.push_of_full` : an item finds its place on a stack that is not full,
  and none on one that is;
* `Stack.popNumber_cons` : a number is taken if the item for it is an operand;
* `Stack.shuffle_dup`, `Stack.mapTop_cons`, `Stack.equal_cons_cons`, `Stack.verifyTop_ofBool` :
  single operations.
-/

namespace SpendScript

theorem Number.isTrue_ofBool (b : Bool) : isTrue (ofBool b) = b := by
  cases b <;> rfl

namespace Stack

variable {item : Bytes} {rest : Stack}

theorem objection?_eq_none (hroom : rest.length < maxItems) (hitem : item.length ≤ maxItemSize) :
    objection? (some maxItems) item rest = none := by
  simp only [objection?, isFull, Option.any_some, decide_eq_true_eq,
    if_neg (Nat.not_le.2 hroom), gt_iff_lt, if_neg (Nat.not_lt.2 hitem)]

/-- **An item that is not too long** finds its place on a stack that is not full. -/
theorem push_eq_ok (hroom : rest.length < maxItems) (hitem : item.length ≤ maxItemSize) :
    push (some maxItems) item rest = .ok () (item :: rest) := by
  rw [push, objection?_eq_none hroom hitem]

theorem objection?_of_full (hfull : maxItems ≤ rest.length) (item : Bytes) :
    objection? (some maxItems) item rest = some .stackSize := by
  simp only [objection?, isFull, Option.any_some, decide_eq_true_eq, if_pos hfull]

theorem push_of_full (hfull : maxItems ≤ rest.length) (item : Bytes) :
    push (some maxItems) item rest = .error .stackSize rest := by
  rw [push, objection?_of_full hfull]

theorem pushTruth_eq_ok (hroom : rest.length < maxItems) (b : Bool) :
    pushTruth (some maxItems) b rest = .ok () (Number.ofBool b :: rest) :=
  push_eq_ok hroom (Nat.le_trans (Number.length_ofBool_le b) (by decide))

theorem pushNumber_eq_ok {n : Int} (hroom : rest.length < maxItems)
    (hn : (Number.encode n).length ≤ maxItemSize) :
    pushNumber (some maxItems) n rest = .ok () (Number.encode n :: rest) :=
  push_eq_ok hroom hn

theorem require_of_le {n : Nat} (h : n ≤ rest.length) : require n rest = .ok () rest :=
  if_neg (Nat.not_lt.2 h)

theorem require_of_lt {n : Nat} (h : rest.length < n) :
    require n rest = .error .badStackOperation rest :=
  if_pos h

/-- **A number is taken** if the item for it is an operand. -/
theorem popNumber_cons (item : Bytes) (rest : Stack) :
    popNumber Number.operandWidth (item :: rest) =
      if Number.IsOperand item then .ok (Number.value item) rest
      else .error .numberRange rest := by
  simp only [popNumber, pop, Effect.bind_apply, Number.decode?_operand]
  by_cases hitem : Number.IsOperand item
  · simp only [if_pos hitem]
    rfl
  · simp only [if_neg hitem]
    rfl

theorem popNumber_of_isOperand (hitem : Number.IsOperand item) (rest : Stack) :
    popNumber Number.operandWidth (item :: rest) = .ok (Number.value item) rest := by
  rw [popNumber_cons, if_pos hitem]

theorem popNumber_of_not_isOperand (hitem : ¬ Number.IsOperand item) (rest : Stack) :
    popNumber Number.operandWidth (item :: rest) = .error .numberRange rest := by
  rw [popNumber_cons, if_neg hitem]

theorem shuffle_dup (hroom : (item :: rest).length < maxItems)
    (hitem : item.length ≤ maxItemSize) :
    shuffle (some maxItems) .dup (item :: rest) = .ok () (item :: item :: rest) := by
  have hone : 1 ≤ (item :: rest).length := Nat.succ_le_succ (Nat.zero_le _)
  have hpeek : peek 0 (item :: rest) = .ok item (item :: rest) := rfl
  simp only [shuffle, copyFrom, Effect.bind_apply, require_of_le hone, hpeek,
    push_eq_ok hroom hitem, Effect.pure_apply]

theorem mapTop_cons {f : Bytes → Bytes} (hroom : rest.length < maxItems)
    (hitem : (f item).length ≤ maxItemSize) :
    mapTop (some maxItems) f (item :: rest) = .ok () (f item :: rest) := by
  simp only [mapTop, Effect.bind_apply, pop, push_eq_ok hroom hitem]

theorem equal_eq_pushTruth (capacity : Capacity) (b a : Bytes) (rest : Stack) :
    equal capacity (b :: a :: rest) = pushTruth capacity (a == b) rest := by
  have htwo : 2 ≤ (b :: a :: rest).length := by simp
  simp only [equal, Effect.bind_apply, require_of_le htwo, pop]

theorem equal_cons_cons (hroom : rest.length < maxItems) (b a : Bytes) :
    equal (some maxItems) (b :: a :: rest) = .ok () (Number.ofBool (a == b) :: rest) := by
  rw [equal_eq_pushTruth, pushTruth_eq_ok hroom]

theorem binary_eq_pushNumber {a b : Bytes} (capacity : Capacity) (op : Binary)
    (ha : Number.IsOperand a) (hb : Number.IsOperand b) (rest : Stack) :
    binary capacity op (b :: a :: rest) =
      pushNumber capacity (op.apply (Number.value a) (Number.value b)) rest := by
  have htwo : 2 ≤ (b :: a :: rest).length := by simp
  simp only [binary, Effect.bind_apply, require_of_le htwo, popNumber_of_isOperand hb,
    popNumber_of_isOperand ha]

theorem verifyTop_cons (fault : Fault) (item : Bytes) (rest : Stack) :
    verifyTop fault (item :: rest) =
      if Number.isTrue item then .ok () rest else .error fault rest := by
  simp only [verifyTop, popTruth, Effect.bind_apply, pop, Effect.pure_apply]
  cases Number.isTrue item <;> rfl

theorem verifyTop_ofBool (fault : Fault) (b : Bool) (rest : Stack) :
    verifyTop fault (Number.ofBool b :: rest) =
      if b then .ok () rest else .error fault rest := by
  rw [verifyTop_cons, Number.isTrue_ofBool]

theorem shuffle_ifDup (capacity : Capacity) (item : Bytes) (rest : Stack) :
    shuffle capacity .ifDup (item :: rest) =
      if Number.isTrue item then push capacity item (item :: rest) else .ok () (item :: rest) := by
  have hpeek : peek 0 (item :: rest) = .ok item (item :: rest) := rfl
  simp only [shuffle, Effect.bind_apply, hpeek]
  cases Number.isTrue item <;> rfl

end Stack

end SpendScript
