import SpendScript.Json.Lexeme

/-!
# How large a number may be

A number is taken as a product of two factors: the integer that its first digits spell, as many as
fit into sixty-four bits, and the power of ten that the point, the exponent and the digits left out
amount to.  Both factors are rounded to fifty-three significant bits before they are multiplied, so
a number just below the bound may count as too large.
-/

namespace SpendScript

namespace Json

/-- The multiple of `unit` that is nearest to a number, and of two the even one, in units. -/
def roundQuotient (n unit : Nat) : Nat :=
  let q := n / unit
  let r := n % unit
  if 2 * r < unit then q
  else if unit < 2 * r then q + 1
  else q + q % 2

/-- The nearest number with at most fifty-three significant bits. -/
def roundSignificant (n : Nat) : Nat :=
  let unit := 1 <<< (n.log2 + 1 - 53)
  roundQuotient n unit * unit

/-- The least number that is rounded to infinity in sixty-four bits. -/
def infinityBound : Nat := 0x3fffffffffffff <<< 970

/-- Largest exponent of a power of ten that is not rounded to infinity. -/
def maxPower : Int := 308

/-- Largest integer of sixty-four bits. -/
def maxSignificand : Nat := 0xffffffffffffffff

namespace Number

/-- Appends digits to an integer as long as the result is not too large, and gives the digits that
are left. -/
def appendDigits (n : Nat) : Bytes → Nat × Bytes
  | [] => (n, [])
  | b :: rest =>
    let longer := 10 * n + (b.toNat - 0x30)
    if longer ≤ maxSignificand then appendDigits longer rest else (n, b :: rest)

/-- The integer that the first digits of a number spell, and the exponent of the power of ten that
it is multiplied with. -/
def factors (number : Number) : Nat × Int :=
  let (n, skipped) := appendDigits 0 number.whole
  let (n, cut) := appendDigits n number.fraction
  (n, number.exponent + skipped.length + cut.length - number.fraction.length)

/-- The number is not too large. -/
def isFinite (number : Number) : Bool :=
  let (n, power) := number.factors
  n == 0 ||
    (decide (power ≤ maxPower) &&
      decide (roundSignificant n * roundSignificant (Nat.pow 10 power.toNat) < infinityBound))

end Number

end Json

end SpendScript
