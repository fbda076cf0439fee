import SpendScript.Number
import SpendScript.Stack

/-!
# Operations on the main stack

What each operation that looks at the main stack alone does to it: taking operands, arithmetic,
and the rearrangements.  An operation takes its operands from the top one by one, so that one
which is no number leaves those above it gone; but where the number of operands is fixed and more
than one, it first asks for all of them.
-/

namespace SpendScript

namespace Stack

/-! ### Operands -/

/-- Takes a number of at most `width` bytes. -/
def popNumber (width : Nat) : Action Int := do
  match Number.decode? (← pop) true width with
  | some n => return n
  | none => throw .numberRange

/-- Takes a truth value. -/
def popTruth : Action Bool :=
  return Number.isTrue (← pop)

/-- Takes a truth value and fails with the given fault if it is false. -/
def verifyTop (fault : Fault) : Action Unit := do
  unless ← popTruth do throw fault

/-- Takes a depth and asks for an item there. -/
def popDepth : Action Nat := do
  let n ← popNumber Number.operandWidth
  if n < 0 ∨ (← size) ≤ n.toNat then throw .badStackOperation
  return n.toNat

/-- Takes `n` items, the top one first. -/
def popMany : Nat → Action (List Bytes)
  | 0 => return []
  | n + 1 => return (← pop) :: (← popMany n)

/-- Takes a number from zero to `most`, with `fault` for any other. -/
def popCount (most : Int) (fault : Fault) : Action Nat := do
  let n ← popNumber Number.operandWidth
  if n < 0 ∨ most < n then throw fault
  return n.toNat

variable (capacity : Capacity)

/-- Adds a number. -/
def pushNumber (n : Int) : Action Unit :=
  push capacity (Number.encode n)

/-- Adds a truth value. -/
def pushTruth (b : Bool) : Action Unit :=
  push capacity (Number.ofBool b)

end Stack

/-! ### Arithmetic -/

/-- One for true and zero for false. -/
def Number.ofTruth (b : Bool) : Int :=
  if b then 1 else 0

/-- The function of one number. -/
def Unary.apply : Unary → Int → Int
  | .add1, a => a + 1
  | .sub1, a => a - 1
  | .negate, a => -a
  | .abs, a => a.natAbs
  | .not, a => Number.ofTruth (a == 0)
  | .notZero, a => Number.ofTruth (a != 0)

/-- The function of two numbers, the lower one first. -/
def Binary.apply : Binary → Int → Int → Int
  | .add, a, b => a + b
  | .sub, a, b => a - b
  | .boolAnd, a, b => Number.ofTruth (a != 0 && b != 0)
  | .boolOr, a, b => Number.ofTruth (a != 0 || b != 0)
  | .numEqual, a, b => Number.ofTruth (a == b)
  | .numNotEqual, a, b => Number.ofTruth (a != b)
  | .lessThan, a, b => Number.ofTruth (a < b)
  | .greaterThan, a, b => Number.ofTruth (b < a)
  | .lessThanOrEqual, a, b => Number.ofTruth (a ≤ b)
  | .greaterThanOrEqual, a, b => Number.ofTruth (b ≤ a)
  | .min, a, b => Min.min a b
  | .max, a, b => Max.max a b

namespace Stack

variable (capacity : Capacity)

/-- Replaces the top number. -/
def unary (u : Unary) : Action Unit := do
  let a ← popNumber Number.operandWidth
  pushNumber capacity (u.apply a)

/-- Replaces the top two numbers. -/
def binary (op : Binary) : Action Unit := do
  require 2
  let b ← popNumber Number.operandWidth
  let a ← popNumber Number.operandWidth
  pushNumber capacity (op.apply a b)

/-- Replaces a number and the bounds above it by whether it is at least the lower and below the
upper one. -/
def within : Action Unit := do
  require 3
  let upper ← popNumber Number.operandWidth
  let lower ← popNumber Number.operandWidth
  let n ← popNumber Number.operandWidth
  pushTruth capacity (lower ≤ n && n < upper)

/-- Replaces the top two items by whether they are the same bytes. -/
def equal : Action Unit := do
  require 2
  let b ← pop
  let a ← pop
  pushTruth capacity (a == b)

/-- Replaces the top item by its image under a function. -/
def mapTop (f : Bytes → Bytes) : Action Unit := do
  let item ← pop
  push capacity (f item)

/-- Takes a lock time and fails if it is negative. -/
def lockTime : Action Unit := do
  let n ← popNumber Number.lockTimeWidth
  if n < 0 then throw .negativeLockTime

/-! ### Rearrangements -/

/-- Adds `count` copies of the item that lies below `depth` others: each copy pushes the next item
to be copied down to the same place. -/
def copyFrom (depth : Nat) : (count : Nat) → Action Unit
  | 0 => pure ()
  | count + 1 => do
    let item ← peek depth
    push capacity item
    copyFrom depth count

/-- The rearrangements. -/
def shuffle : Shuffle → Action Unit
  | .drop2 => do
    require 2
    let _ ← pop
    let _ ← pop
  | .dup2 => do
    require 2
    copyFrom capacity 1 2
  | .dup3 => do
    require 3
    copyFrom capacity 2 3
  | .over2 => do
    require 4
    copyFrom capacity 3 2
  | .rot2 => do
    require 6
    let first ← removeAt 5
    let second ← removeAt 4
    push capacity first
    push capacity second
  | .swap2 => do
    require 4
    swap 3 1
    swap 2 0
  | .ifDup => do
    let top ← peek 0
    if Number.isTrue top then push capacity top
  | .depth => do
    let n ← size
    pushNumber capacity n
  | .drop => do
    let _ ← pop
  | .dup => do
    require 1
    copyFrom capacity 0 1
  | .nip => do
    let _ ← removeAt 1
  | .over => do
    require 2
    copyFrom capacity 1 1
  | .pick => do
    let depth ← popDepth
    let item ← peek depth
    push capacity item
  | .roll => do
    let depth ← popDepth
    let item ← removeAt depth
    push capacity item
  | .rot => do
    require 3
    let item ← removeAt 2
    push capacity item
  | .swap => do
    require 2
    swap 0 1
  | .tuck => do
    require 2
    let top ← peek 0
    insertAt capacity 2 top
  | .size => do
    let top ← peek 0
    pushNumber capacity top.length

end Stack

end SpendScript
