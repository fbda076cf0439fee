import SpendScript.Crypto.Block

/-!
# SHA-1

* `Sha1.length_hash` : a hash has twenty bytes.
-/

namespace SpendScript

namespace Sha1

open Block

/-- What one block hands on to the next. -/
structure Chain where
  a : UInt32
  b : UInt32
  c : UInt32
  d : UInt32
  e : UInt32

/-- The chain before the first block. -/
def initial : Chain :=
  ⟨0x67452301, 0xefcdab89, 0x98badcfe, 0x10325476, 0xc3d2e1f0⟩

/-- The words of a block, with sixty-four more mixed from them. -/
def schedule (block : Array UInt32) : Array UInt32 :=
  (List.range 64).foldl
    (fun w i =>
      w.push (rotateLeft
        (w.getD (i + 13) 0 ^^^ w.getD (i + 8) 0 ^^^ w.getD (i + 2) 0 ^^^ w.getD i 0) 1))
    block

/-- The function and the constant of round `i`. -/
def mix (i : Nat) (b c d : UInt32) : UInt32 :=
  if i < 20 then ((b &&& c) ||| (~~~b &&& d)) + 0x5a827999
  else if i < 40 then (b ^^^ c ^^^ d) + 0x6ed9eba1
  else if i < 60 then ((b &&& c) ||| (b &&& d) ||| (c &&& d)) + 0x8f1bbcdc
  else (b ^^^ c ^^^ d) + 0xca62c1d6

/-- Round `i`, with a word. -/
def round (x : Chain) (i : Nat) (w : UInt32) : Chain :=
  ⟨rotateLeft x.a 5 + mix i x.b x.c x.d + x.e + w, x.a, rotateLeft x.b 30, x.c, x.d⟩

/-- Adds word by word. -/
def Chain.add (x y : Chain) : Chain :=
  ⟨x.a + y.a, x.b + y.b, x.c + y.c, x.d + y.d, x.e + y.e⟩

/-- Takes in one block. -/
def compress (x : Chain) (block : Array UInt32) : Chain :=
  x.add ((schedule block).toList.zipIdx.foldl (fun x (w, i) => round x i w) x)

/-- The words in order. -/
def Chain.words (x : Chain) : List UInt32 :=
  [x.a, x.b, x.c, x.d, x.e]

/-- The hash of a message. -/
def hash (message : Bytes) : Bytes :=
  toBytes .bigEndian ((ofMessage .bigEndian message).foldl compress initial).words

@[simp] theorem length_hash (message : Bytes) : (hash message).length = 20 := by
  simp [hash, length_toBytes, Chain.words]

end Sha1

end SpendScript
