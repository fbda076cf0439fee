/-!
# Points of the curve secp256k1

The curve is `y ^ 2 = x ^ 3 + 7` over the residues modulo a prime `p`.  Its points and the point at
infinity are a group of prime order `n`.  Residues are natural numbers below the modulus.  Inverses
are powers: modulo a prime `m` the inverse of `a` is `a ^ (m - 2)`.

Sums are computed in coordinates `(x, y, z)` that stand for the point `(x / z ^ 2, y / z ^ 3)`, and
for the point at infinity if `z` is zero, because then only the end result needs an inverse.
-/

namespace SpendScript

/-! ### Residues -/

namespace Modular

/-- The power `a ^ e` modulo `m`. -/
def pow (m a e : Nat) : Nat :=
  if e = 0 then 1 % m
  else
    let h := pow m a (e / 2)
    let square := h * h % m
    if e % 2 = 1 then square * a % m else square
termination_by e

/-- The inverse modulo a prime, and zero for zero. -/
def inverse (m a : Nat) : Nat :=
  pow m a (m - 2)

/-- The difference modulo `m` of two numbers below `m`. -/
def sub (m a b : Nat) : Nat :=
  (a + m - b) % m

/-- The number that gives zero when it is added to `a` modulo `m`. -/
def negate (m a : Nat) : Nat :=
  (m - a % m) % m

end Modular

/-! ### Points -/

namespace Curve

/-- The prime modulus of the coordinates. -/
def p : Nat := 0xfffffffffffffffffffffffffffffffffffffffffffffffffffffffefffffc2f

/-- The order of the group. -/
def n : Nat := 0xfffffffffffffffffffffffffffffffebaaedce6af48a03bbfd25e8cd0364141

/-- A point other than the one at infinity, by its coordinates. -/
structure Point where
  /-- The first coordinate. -/
  x : Nat
  /-- The second coordinate. -/
  y : Nat
  deriving Repr, DecidableEq

/-- What stands on the right of the equation of the curve. -/
def rightSide (x : Nat) : Nat :=
  (x * x % p * x + 7) % p

/-- The coordinates are residues and satisfy the equation of the curve. -/
def Point.isOnCurve (q : Point) : Bool :=
  q.x < p && q.y < p && q.y * q.y % p == rightSide q.x

/-- The points with first coordinate `x`, by whether the second is odd. -/
def lift? (x : Nat) (odd : Bool) : Option Point :=
  let square := rightSide x
  let root := Modular.pow p square ((p + 1) / 4)
  if x < p ∧ root * root % p = square then
    some ⟨x, if (root % 2 == 1) == odd then root else Modular.negate p root⟩
  else none

/-- The point that generates the group. -/
def generator : Point where
  x := 0x79be667ef9dcbbac55a06295ce870b07029bfcdb2dce28d959f2815b16f81798
  y := 0x483ada7726a3c4655da4fbfc0e1108a8fd17b448a68554199c47d08ffb10d4b8

/-- A point in coordinates with a common denominator. -/
structure Projective where
  x : Nat
  y : Nat
  z : Nat

namespace Projective

/-- The point at infinity. -/
def infinity : Projective := ⟨1, 1, 0⟩

/-- A point given by its coordinates. -/
def ofPoint (q : Point) : Projective := ⟨q.x, q.y, 1⟩

/-- The coordinates of a point, unless it is at infinity. -/
def toPoint? (q : Projective) : Option Point :=
  if q.z = 0 then none
  else
    let i := Modular.inverse p q.z
    let i2 := i * i % p
    some ⟨q.x * i2 % p, q.y * (i2 * i % p) % p⟩

/-- Twice a point. -/
def double (q : Projective) : Projective :=
  if q.z = 0 ∨ q.y = 0 then infinity
  else
    let y2 := q.y * q.y % p
    let s := 4 * (q.x * y2) % p
    let m := 3 * (q.x * q.x) % p
    let x := Modular.sub p (m * m % p) (2 * s % p)
    let y := Modular.sub p (m * Modular.sub p s x % p) (8 * (y2 * y2) % p)
    ⟨x, y, 2 * (q.y * q.z) % p⟩

/-- The sum of two points. -/
def add (q r : Projective) : Projective :=
  if q.z = 0 then r
  else if r.z = 0 then q
  else
    let zq2 := q.z * q.z % p
    let zr2 := r.z * r.z % p
    let u1 := q.x * zr2 % p
    let u2 := r.x * zq2 % p
    let s1 := q.y * (zr2 * r.z % p) % p
    let s2 := r.y * (zq2 * q.z % p) % p
    let h := Modular.sub p u2 u1
    let d := Modular.sub p s2 s1
    if h = 0 then
      if d = 0 then double q else infinity
    else
      let h2 := h * h % p
      let h3 := h2 * h % p
      let v := u1 * h2 % p
      let x := Modular.sub p (Modular.sub p (d * d % p) h3) (2 * v % p)
      let y := Modular.sub p (d * Modular.sub p v x % p) (s1 * h3 % p)
      ⟨x, y, h * (q.z * r.z % p) % p⟩

/-- A multiple of a point. -/
def multiply (q : Projective) (k : Nat) : Projective :=
  if k = 0 then infinity
  else
    let twice := double (multiply q (k / 2))
    if k % 2 = 1 then add twice q else twice
termination_by k

end Projective

/-- A multiple of a point, unless it is at infinity. -/
def multiply? (k : Nat) (q : Point) : Option Point :=
  ((Projective.ofPoint q).multiply k).toPoint?

/-- The sum of a multiple of the generator and a multiple of a point, unless it is at infinity. -/
def combine? (a : Nat) (b : Nat) (q : Point) : Option Point :=
  (((Projective.ofPoint generator).multiply a).add ((Projective.ofPoint q).multiply b)).toPoint?

end Curve

end SpendScript
