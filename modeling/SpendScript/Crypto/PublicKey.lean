import SpendScript.Bytes.Basic
import SpendScript.Crypto.Curve

/-!
# Public keys as byte strings

A public key is a point of the curve.  It is written in thirty-three bytes: whether the second
coordinate is odd, and the first coordinate.  It is also read from sixty-five bytes with both
coordinates, where the first byte may tell whether the second coordinate is odd.
-/

namespace SpendScript

namespace PublicKey

open Curve

/-- A public key in thirty-three bytes. -/
def write (q : Point) : Bytes :=
  (if q.y % 2 = 0 then 2 else 3) :: Bytes.ofNatBE 32 q.x

/-- The point of two coordinates, if it is one and its second coordinate is as it should be. -/
def ofCoordinates? (bytes : Bytes) (odd? : Option Bool) : Option Point :=
  let q : Point := ⟨Bytes.toNatBE (bytes.take 32), Bytes.toNatBE (bytes.drop 32)⟩
  if q.isOnCurve && odd?.all (· == (q.y % 2 == 1)) then some q else none

/-- Reads a public key. -/
def read? : Bytes → Option Point
  | [] => none
  | first :: rest =>
    if rest.length = 32 then
      if first = 2 then lift? (Bytes.toNatBE rest) false
      else if first = 3 then lift? (Bytes.toNatBE rest) true
      else none
    else if rest.length = 64 then
      if first = 4 then ofCoordinates? rest none
      else if first = 6 then ofCoordinates? rest (some false)
      else if first = 7 then ofCoordinates? rest (some true)
      else none
    else none

end PublicKey

end SpendScript
