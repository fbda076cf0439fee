import SpendScript.Bytes.Basic

/-!
# Numbers on the stack

A stack item is read as a number in sign and magnitude: the bytes spell the magnitude with the
least significant byte first, and the high bit of the last byte is the sign.  Zero is the empty
string.  The same items are read as truth values, where zero of either sign is false.

Every item has a value (`Number.value`), but as an operand only short items count
(`Number.decode?`), and most operations also ask for the shortest encoding (`Number.isMinimal`).
-/

namespace SpendScript

namespace Number

/-- Items longer than this are never read as numbers. -/
def maxWidth : Nat := 8

/-- Longest operand of arithmetic. -/
def operandWidth : Nat := 4

/-- Longest operand of the lock time checks. -/
def lockTimeWidth : Nat := 5

/-- The weight of the sign bit in an item of `width` bytes. -/
def signBit (width : Nat) : Nat := 128 * Bytes.bound (width - 1)

/-- The number an item spells in sign and magnitude. -/
def value (item : Bytes) : Int :=
  let n := item.toNatLE
  let sign := signBit item.length
  if item ≠ [] ∧ sign ≤ n then -((n - sign : Nat) : Int) else n

/-- No shorter item has the same value: the last byte carries a bit besides the sign, or it only
makes room for the sign because the byte before it is full. -/
def isMinimal (item : Bytes) : Bool :=
  match item.reverse with
  | [] => true
  | [last] => last &&& 0x7f != 0
  | last :: previous :: _ => last &&& 0x7f != 0 || previous &&& 0x80 != 0

/-- Reads an item of at most `width` bytes as a number, on request only in its shortest
encoding. -/
def decode? (item : Bytes) (minimal : Bool) (width : Nat) : Option Int :=
  if item.length > min width maxWidth then none
  else if minimal && !isMinimal item then none
  else some (value item)

/-- Puts the sign on the digits of a magnitude: into the high bit of the last digit if that is
free, else into a byte of its own. -/
def withSign (negative : Bool) : Bytes → Bytes
  | [] => []
  | [last] =>
    if last &&& 0x80 != 0 then [last, if negative then 0x80 else 0]
    else [if negative then last ||| 0x80 else last]
  | digit :: rest => digit :: withSign negative rest

/-- The shortest item with a given value. -/
def encode (n : Int) : Bytes :=
  withSign (n < 0) (Bytes.digitsLE n.natAbs)

/-- An item is true unless it spells zero: some byte is not zero, and it is not a lone sign bit in
the last place. -/
def isTrue : Bytes → Bool
  | [] => false
  | [last] => last != 0 && last != 0x80
  | b :: rest => b != 0 || isTrue rest

/-- The item for a truth value. -/
def ofBool (b : Bool) : Bytes :=
  if b then [1] else []

end Number

end SpendScript
