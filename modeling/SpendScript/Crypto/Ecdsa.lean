import SpendScript.Crypto.Curve
import SpendScript.Crypto.Sha256

/-!
# Signatures on the curve

A secret key is a number `d` between zero and the order `n` of the group; the public key is the
multiple `d` of the generator.  A signature of a number `z` is a pair `(r, s)`, made from a secret
number `k`, the nonce, which is derived from `d` and `z`.  Of the two signatures
`(r, s)` and `(r, n - s)`, which are valid together, the one with the smaller second number is
made, and every signature is brought to this form before it is checked.
-/

namespace SpendScript

namespace Ecdsa

open Curve

/-- The signature with the smaller second number of the two that are valid together. -/
def lowS (s : Nat) : Nat :=
  if n / 2 < s then n - s else s

/-- The equation that a signature has to satisfy: the inverse of `s` takes the sum of the multiple
`z` of the generator and the multiple `r` of the key to a point whose first coordinate is `r`. -/
def holds (publicKey : Point) (z r s : Nat) : Bool :=
  let i := Modular.inverse n s
  match combine? (z * i % n) (r * i % n) publicKey with
  | some q => q.x % n == r
  | none => false

/-- Checks a signature of `z`, of which neither number may be zero. -/
def verify (publicKey : Point) (z r s : Nat) : Bool :=
  r != 0 && s != 0 && holds publicKey z r (lowS s)

/-! ### Nonces -/

/-- The state of the generator of nonces: a key and a block. -/
structure NonceState where
  key : Bytes
  block : Bytes

namespace NonceState

/-- Mixes some bytes into the state. -/
def mix (s : NonceState) (bytes : Bytes) : NonceState :=
  let key := Hmac.sha256 s.key (s.block ++ bytes)
  ⟨key, Hmac.sha256 key s.block⟩

/-- The state for a seed. -/
def ofSeed (seed : Bytes) : NonceState :=
  let start : NonceState := ⟨List.replicate 32 0, List.replicate 32 1⟩
  (start.mix (0 :: seed)).mix (1 :: seed)

/-- The next block. -/
def next (s : NonceState) : NonceState :=
  { s with block := Hmac.sha256 s.key s.block }

/-- Gives up a block that is of no use. -/
def retry (s : NonceState) : NonceState :=
  s.mix [0]

end NonceState

/-- The signature that a nonce gives, unless one of its numbers is zero. -/
def signWith? (d z k : Nat) : Option (Nat × Nat) :=
  if k = 0 ∨ n ≤ k then none
  else do
    let q ← multiply? k generator
    let r := q.x % n
    let s := lowS (Modular.inverse n k * ((z + r * d) % n) % n)
    if r = 0 ∨ s = 0 then none else some (r, s)

/-- Tries one nonce after another, at most `tries` of them.  The pair of zeros, which is never
valid, stands for the case that none will do. -/
def signFrom (d z : Nat) : (tries : Nat) → NonceState → Nat × Nat
  | 0, _ => (0, 0)
  | tries + 1, state =>
    let state := state.next
    match signWith? d z state.block.toNatBE with
    | some signature => signature
    | none => signFrom d z tries state.retry

/-- The signature of a number below `n` with the secret key `d`.  The seed of the nonces is both
numbers in thirty-two bytes each. -/
def sign (d z : Nat) : Nat × Nat :=
  signFrom d z 0x100000000 (NonceState.ofSeed (Bytes.ofNatBE 32 d ++ Bytes.ofNatBE 32 z))

end Ecdsa

end SpendScript
