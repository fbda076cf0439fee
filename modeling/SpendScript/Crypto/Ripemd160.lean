import SpendScript.Crypto.Block

/-!
# RIPEMD-160

A block goes through two lines of eighty rounds side by side, which read its words in different
orders and are added up at the end.

* `Ripemd160.length_hash` : a hash has twenty bytes.
-/

namespace SpendScript

namespace Ripemd160

open Block

/-- What one block hands on to the next. -/
structure Chain where
  a : UInt32
  b : UInt32
  c : UInt32
  d : UInt32
  e : UInt32

/-- The chain before the first block. -/
def initial : Chain :=
  ⟨0x67452301, 0xefcdab89, 0x98badcfe, 0x10325476, 0xc3d2e1f0⟩

/-- The words that the left line reads. -/
def leftWords : List Nat :=
  [0, 1, 2, 3, 4, 5, 6, 7, 8, 9, 10, 11, 12, 13, 14, 15,
   7, 4, 13, 1, 10, 6, 15, 3, 12, 0, 9, 5, 2, 14, 11, 8,
   3, 10, 14, 4, 9, 15, 8, 1, 2, 7, 0, 6, 13, 11, 5, 12,
   1, 9, 11, 10, 0, 8, 12, 4, 13, 3, 7, 15, 14, 5, 6, 2,
   4, 0, 5, 9, 7, 12, 2, 10, 14, 1, 3, 8, 11, 6, 15, 13]

/-- The words that the right line reads. -/
def rightWords : List Nat :=
  [5, 14, 7, 0, 9, 2, 11, 4, 13, 6, 15, 8, 1, 10, 3, 12,
   6, 11, 3, 7, 0, 13, 5, 10, 14, 15, 8, 12, 4, 9, 1, 2,
   15, 5, 1, 3, 7, 14, 6, 9, 11, 8, 12, 2, 10, 0, 4, 13,
   8, 6, 4, 1, 3, 11, 15, 0, 5, 12, 2, 13, 9, 7, 10, 14,
   12, 15, 10, 4, 1, 5, 8, 7, 6, 2, 13, 14, 0, 3, 9, 11]

/-- How far the left line turns. -/
def leftShifts : List UInt32 :=
  [11, 14, 15, 12, 5, 8, 7, 9, 11, 13, 14, 15, 6, 7, 9, 8,
   7, 6, 8, 13, 11, 9, 7, 15, 7, 12, 15, 9, 11, 7, 13, 12,
   11, 13, 6, 7, 14, 9, 13, 15, 14, 8, 13, 6, 5, 12, 7, 5,
   11, 12, 14, 15, 14, 15, 9, 8, 9, 14, 5, 6, 8, 6, 5, 12,
   9, 15, 5, 11, 6, 8, 13, 12, 5, 12, 13, 14, 11, 8, 5, 6]

/-- How far the right line turns. -/
def rightShifts : List UInt32 :=
  [8, 9, 9, 11, 13, 15, 15, 5, 7, 7, 8, 11, 14, 14, 12, 6,
   9, 13, 15, 7, 12, 8, 9, 11, 7, 7, 12, 7, 6, 15, 13, 11,
   9, 7, 15, 11, 8, 6, 6, 14, 12, 13, 5, 14, 13, 13, 7, 5,
   15, 5, 8, 11, 14, 14, 6, 14, 6, 9, 12, 9, 12, 5, 15, 8,
   8, 5, 12, 9, 12, 5, 14, 6, 8, 13, 6, 5, 15, 13, 11, 11]

/-- The constants of the left line, one for sixteen rounds. -/
def leftConstants : List UInt32 :=
  [0, 0x5a827999, 0x6ed9eba1, 0x8f1bbcdc, 0xa953fd4e]

/-- The constants of the right line, one for sixteen rounds. -/
def rightConstants : List UInt32 :=
  [0x50a28be6, 0x5c4dd124, 0x6d703ef3, 0x7a6d76e9, 0]

/-- The five functions, the first for the first sixteen rounds of the left line. -/
def mix : (group : Nat) → (x y z : UInt32) → UInt32
  | 0, x, y, z => x ^^^ y ^^^ z
  | 1, x, y, z => (x &&& y) ||| (~~~x &&& z)
  | 2, x, y, z => (x ||| ~~~y) ^^^ z
  | 3, x, y, z => (x &&& z) ||| (y &&& ~~~z)
  | _, x, y, z => x ^^^ (y ||| ~~~z)

/-- One round, with a function, a constant, a word and a shift. -/
def round (x : Chain) (group : Nat) (k w shift : UInt32) : Chain :=
  let t := rotateLeft (x.a + mix group x.b x.c x.d + w + k) shift + x.e
  ⟨x.e, t, x.b, rotateLeft x.c 10, x.d⟩

/-- A line of eighty rounds; `group` gives the function for each sixteen of them. -/
def line (words : List Nat) (shifts constants : List UInt32) (group : Nat → Nat)
    (block : Array UInt32) (x : Chain) : Chain :=
  (words.zip shifts).zipIdx.foldl
    (fun x ((word, shift), i) =>
      round x (group (i / 16)) (constants.getD (i / 16) 0) (block.getD word 0) shift)
    x

/-- Takes in one block. -/
def compress (x : Chain) (block : Array UInt32) : Chain :=
  let l := line leftWords leftShifts leftConstants (fun i => i) block x
  let r := line rightWords rightShifts rightConstants (fun i => 4 - i) block x
  ⟨x.b + l.c + r.d, x.c + l.d + r.e, x.d + l.e + r.a, x.e + l.a + r.b, x.a + l.b + r.c⟩

/-- The words in order. -/
def Chain.words (x : Chain) : List UInt32 :=
  [x.a, x.b, x.c, x.d, x.e]

/-- The hash of a message. -/
def hash (message : Bytes) : Bytes :=
  toBytes .littleEndian ((ofMessage .littleEndian message).foldl compress initial).words

@[simp] theorem length_hash (message : Bytes) : (hash message).length = 20 := by
  simp [hash, length_toBytes, Chain.words]

end Ripemd160

end SpendScript
