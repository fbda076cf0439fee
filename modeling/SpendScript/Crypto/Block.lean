import SpendScript.Bytes.Basic

/-!
# Blocks of a message

The hash functions read a message in blocks of sixteen words.  The message is filled up so that
the blocks come out even: with the byte `0x80`, with zeros, and with its length in bits in the
last eight bytes.  The functions differ in the order of bytes in a word and in the length.
-/

namespace SpendScript

namespace Block

/-- The order of bytes in a word. -/
inductive Order
  | bigEndian | littleEndian

/-- The bytes of a block. -/
def size : Nat := 64

/-- A number in `width` bytes. -/
def Order.write : Order → (width n : Nat) → Bytes
  | .bigEndian => Bytes.ofNatBE
  | .littleEndian => Bytes.ofNatLE

/-- The number that some bytes spell. -/
def Order.read : Order → Bytes → Nat
  | .bigEndian => Bytes.toNatBE
  | .littleEndian => Bytes.toNatLE

/-- Cuts a list into parts of `n + 1`; the last may be shorter. -/
def chunks {α : Type} (n : Nat) (xs : List α) : List (List α) :=
  match xs with
  | [] => []
  | x :: rest => (x :: rest.take n) :: chunks n (rest.drop n)
termination_by xs.length
decreasing_by simp only [List.length_cons, List.length_drop]; omega

/-- A message filled up to whole blocks. -/
def pad (order : Order) (message : Bytes) : Bytes :=
  let n := message.length
  message ++ 0x80 :: List.replicate ((size + 55 - n % size) % size) 0 ++ order.write 8 (8 * n)

/-- The blocks of a message, each as its words. -/
def ofMessage (order : Order) (message : Bytes) : List (Array UInt32) :=
  (chunks 63 (pad order message)).map fun block =>
    ((chunks 3 block).map fun word => UInt32.ofNat (order.read word)).toArray

/-- The bytes of some words. -/
def toBytes (order : Order) (words : List UInt32) : Bytes :=
  words.flatMap fun w => order.write 4 w.toNat

theorem length_toBytes (order : Order) (words : List UInt32) :
    (toBytes order words).length = 4 * words.length := by
  induction words with
  | nil => rfl
  | cons w words ih =>
    have h : (order.write 4 w.toNat).length = 4 := by cases order <;> simp [Order.write]
    simp only [toBytes, List.flatMap_cons, List.length_append, List.length_cons] at ih ⊢
    omega

/-- Turns a word to the left by `n` bits, for `n` from one to thirty-one. -/
def rotateLeft (w : UInt32) (n : UInt32) : UInt32 :=
  (w <<< n) ||| (w >>> (32 - n))

/-- Turns a word to the right by `n` bits, for `n` from one to thirty-one. -/
def rotateRight (w : UInt32) (n : UInt32) : UInt32 :=
  (w >>> n) ||| (w <<< (32 - n))

end Block

end SpendScript
