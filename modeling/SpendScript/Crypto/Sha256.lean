import SpendScript.Crypto.Block

/-!
# SHA-256

The hash of a message, and the keyed hash (HMAC) that is made of it: the message is hashed behind
the key, and the result once more, each time with the key filled up to a block and changed by a
different constant.

* `Sha256.length_hash`, `Hmac.length_sha256` : a hash has thirty-two bytes.
-/

namespace SpendScript

namespace Sha256

open Block

/-- What one block hands on to the next. -/
structure Chain where
  a : UInt32
  b : UInt32
  c : UInt32
  d : UInt32
  e : UInt32
  f : UInt32
  g : UInt32
  h : UInt32

/-- The first thirty-two bits behind the point of the square roots of the first eight primes. -/
def initial : Chain where
  a := 0x6a09e667
  b := 0xbb67ae85
  c := 0x3c6ef372
  d := 0xa54ff53a
  e := 0x510e527f
  f := 0x9b05688c
  g := 0x1f83d9ab
  h := 0x5be0cd19

/-- The first thirty-two bits behind the point of the cube roots of the first sixty-four primes. -/
def roundConstants : List UInt32 :=
  [0x428a2f98, 0x71374491, 0xb5c0fbcf, 0xe9b5dba5, 0x3956c25b, 0x59f111f1,
   0x923f82a4, 0xab1c5ed5, 0xd807aa98, 0x12835b01, 0x243185be, 0x550c7dc3,
   0x72be5d74, 0x80deb1fe, 0x9bdc06a7, 0xc19bf174, 0xe49b69c1, 0xefbe4786,
   0x0fc19dc6, 0x240ca1cc, 0x2de92c6f, 0x4a7484aa, 0x5cb0a9dc, 0x76f988da,
   0x983e5152, 0xa831c66d, 0xb00327c8, 0xbf597fc7, 0xc6e00bf3, 0xd5a79147,
   0x06ca6351, 0x14292967, 0x27b70a85, 0x2e1b2138, 0x4d2c6dfc, 0x53380d13,
   0x650a7354, 0x766a0abb, 0x81c2c92e, 0x92722c85, 0xa2bfe8a1, 0xa81a664b,
   0xc24b8b70, 0xc76c51a3, 0xd192e819, 0xd6990624, 0xf40e3585, 0x106aa070,
   0x19a4c116, 0x1e376c08, 0x2748774c, 0x34b0bcb5, 0x391c0cb3, 0x4ed8aa4a,
   0x5b9cca4f, 0x682e6ff3, 0x748f82ee, 0x78a5636f, 0x84c87814, 0x8cc70208,
   0x90befffa, 0xa4506ceb, 0xbef9a3f7, 0xc67178f2]

/-- The words of a block, with forty-eight more mixed from them. -/
def schedule (block : Array UInt32) : Array UInt32 :=
  (List.range 48).foldl
    (fun w i =>
      let w15 := w.getD (i + 1) 0
      let w2 := w.getD (i + 14) 0
      let s0 := rotateRight w15 7 ^^^ rotateRight w15 18 ^^^ (w15 >>> 3)
      let s1 := rotateRight w2 17 ^^^ rotateRight w2 19 ^^^ (w2 >>> 10)
      w.push (w.getD i 0 + s0 + w.getD (i + 9) 0 + s1))
    block

/-- One round, with a constant and a word. -/
def round (x : Chain) (k w : UInt32) : Chain :=
  let s1 := rotateRight x.e 6 ^^^ rotateRight x.e 11 ^^^ rotateRight x.e 25
  let choice := (x.e &&& x.f) ^^^ (~~~x.e &&& x.g)
  let t1 := x.h + s1 + choice + k + w
  let s0 := rotateRight x.a 2 ^^^ rotateRight x.a 13 ^^^ rotateRight x.a 22
  let majority := (x.a &&& x.b) ^^^ (x.a &&& x.c) ^^^ (x.b &&& x.c)
  ⟨t1 + (s0 + majority), x.a, x.b, x.c, x.d + t1, x.e, x.f, x.g⟩

/-- Adds word by word. -/
def Chain.add (x y : Chain) : Chain :=
  ⟨x.a + y.a, x.b + y.b, x.c + y.c, x.d + y.d, x.e + y.e, x.f + y.f, x.g + y.g, x.h + y.h⟩

/-- Takes in one block. -/
def compress (x : Chain) (block : Array UInt32) : Chain :=
  let rounds := roundConstants.zip (schedule block).toList
  x.add (rounds.foldl (fun x (k, w) => round x k w) x)

/-- The words in order. -/
def Chain.words (x : Chain) : List UInt32 :=
  [x.a, x.b, x.c, x.d, x.e, x.f, x.g, x.h]

/-- The hash of a message. -/
def hash (message : Bytes) : Bytes :=
  toBytes .bigEndian ((ofMessage .bigEndian message).foldl compress initial).words

@[simp] theorem length_hash (message : Bytes) : (hash message).length = 32 := by
  simp [hash, length_toBytes, Chain.words]

end Sha256

namespace Hmac

/-- A key of one block: filled up with zeros, after hashing if it is longer. -/
def blockKey (key : Bytes) : Bytes :=
  let short := if key.length > Block.size then Sha256.hash key else key
  short ++ List.replicate (Block.size - short.length) 0

/-- The keyed hash of a message. -/
def sha256 (key message : Bytes) : Bytes :=
  let key := blockKey key
  let inner := Sha256.hash (key.map (· ^^^ 0x36) ++ message)
  Sha256.hash (key.map (· ^^^ 0x5c) ++ inner)

@[simp] theorem length_sha256 (key message : Bytes) : (sha256 key message).length = 32 := by
  simp [sha256]

end Hmac

end SpendScript
