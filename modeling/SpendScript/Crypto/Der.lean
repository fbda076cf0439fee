import SpendScript.Bytes.Basic

/-!
# Signatures as byte strings

A signature is a pair of numbers.  It is written as a sequence of two integers, each as its length
and its bytes, most significant byte first, with a zero byte in front if the first would read as a
sign (`Der.write`).  Reading (`Der.read?`) is more lenient: the length of the sequence is passed
over, lengths may be written in more bytes than needed, zeros in front and the sign are ignored,
and so is what follows the second integer.
-/

namespace SpendScript

namespace Der

/-! ### Writing -/

/-- The bytes of a number, with a zero in front if the first would read as a sign. -/
def integerBytes (n : Nat) : Bytes :=
  match Bytes.digitsBE n with
  | [] => [0]
  | first :: rest => if first ≥ 0x80 then 0 :: first :: rest else first :: rest

/-- A tag, the number of the bytes that follow, and these bytes; there are fewer than 128. -/
def tagged (tag : UInt8) (bytes : Bytes) : Bytes :=
  tag :: UInt8.ofNat bytes.length :: bytes

/-- A signature in its shortest form. -/
def write (r s : Nat) : Bytes :=
  tagged 0x30 (tagged 0x02 (integerBytes r) ++ tagged 0x02 (integerBytes s))

/-! ### Reading -/

/-- Takes `n` bytes, if there are as many. -/
def take? (n : Nat) (bytes : Bytes) : Option (Bytes × Bytes) :=
  if n ≤ bytes.length then some (bytes.take n, bytes.drop n) else none

/-- Passes over the length of the sequence. -/
def skipLength : Bytes → Option Bytes
  | [] => none
  | first :: rest =>
    if first < 0x80 then some rest else (take? (first.toNat - 0x80) rest).map (·.2)

/-- Reads a length: one byte below `0x80`, or the number of the bytes that spell it and then these,
of which fewer than eight may be left without the zeros in front. -/
def readLength : Bytes → Option (Nat × Bytes)
  | [] => none
  | first :: rest =>
    if first < 0x80 then some (first.toNat, rest)
    else do
      let (bytes, rest) ← take? (first.toNat - 0x80) rest
      let digits : Bytes := bytes.dropWhile (· == 0)
      if digits.length < 8 then some (digits.toNatBE, rest) else none

/-- Reads the bytes of an integer. -/
def readInteger : Bytes → Option (Bytes × Bytes)
  | 0x02 :: rest => do
    let (length, rest) ← readLength rest
    take? length rest
  | _ => none

/-- The number that the bytes of an integer spell, if it needs at most thirty-two bytes and is
below `bound`. -/
def scalar? (bound : Nat) (bytes : Bytes) : Option Nat :=
  let digits : Bytes := bytes.dropWhile (· == 0)
  if digits.length ≤ 32 ∧ digits.toNatBE < bound then some digits.toNatBE else none

/-- Reads a signature.  If one of its numbers is not below `bound`, both are taken as zero. -/
def read? (bound : Nat) : Bytes → Option (Nat × Nat)
  | 0x30 :: rest => do
    let rest ← skipLength rest
    let (r, rest) ← readInteger rest
    let (s, _) ← readInteger rest
    match scalar? bound r, scalar? bound s with
    | some r, some s => some (r, s)
    | _, _ => some (0, 0)
  | _ => none

end Der

end SpendScript
