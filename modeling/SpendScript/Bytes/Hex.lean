import SpendScript.Bytes.Basic

/-!
# Hexadecimal text

A byte is written as two lowercase digits; digits of either case are read.  Reading looks at the
bytes of the text: first at their number, which has to be even, then at each of them from left
to right, so that an error can name the first byte that is no digit.
-/

namespace SpendScript

namespace Hex

/-- Why a text is not the hexadecimal form of a byte string. -/
inductive Error
  /-- The text has an odd number of bytes. -/
  | oddLength
  /-- The byte at this position is the first that is no digit. -/
  | badDigit (byte : UInt8) (position : Nat)
  deriving Repr, DecidableEq

/-- The lowercase digit of a number below sixteen. -/
def digit (n : Nat) : Char :=
  if n < 10 then Char.ofNat (48 + n) else Char.ofNat (87 + n)

/-- The value of a digit of either case, given as a byte of text. -/
def digitValue? (b : UInt8) : Option Nat :=
  let n := b.toNat
  if 48 ≤ n ∧ n ≤ 57 then some (n - 48)
  else if 97 ≤ n ∧ n ≤ 102 then some (n - 87)
  else if 65 ≤ n ∧ n ≤ 70 then some (n - 55)
  else none

/-- The two digits of a byte, high half first. -/
def ofByte (b : UInt8) : List Char :=
  [digit (b.toNat / 16), digit (b.toNat % 16)]

/-- The digits of a byte string. -/
def digits (bytes : Bytes) : List Char :=
  bytes.flatMap ofByte

/-- The hexadecimal form of a byte string. -/
def encode (bytes : Bytes) : String :=
  String.ofList (digits bytes)

/-- The digits of a number in base sixteen, without leading zeros. -/
def ofNat (n : Nat) : List Char :=
  Nat.toDigits 16 n

/-- The digits of a number in base sixteen, filled up with zeros to at least `width` digits. -/
def ofNatPadded (width n : Nat) : List Char :=
  let ds := ofNat n
  List.replicate (width - ds.length) '0' ++ ds

/-- Reads pairs of digits; `read` holds the bytes so far, last first. -/
def pairs (read : Bytes) : Bytes → Bytes
  | hi :: lo :: rest =>
    pairs (UInt8.ofNat (16 * (digitValue? hi).getD 0 + (digitValue? lo).getD 0) :: read) rest
  | _ => read.reverse

/-- Reads a text given by its bytes. -/
def decodeBytes (text : Bytes) : Except Error Bytes :=
  if text.length % 2 = 1 then .error .oddLength
  else match text.findIdx? fun b => (digitValue? b).isNone with
    | some i => .error (.badDigit (text.getD i 0) i)
    | none => .ok (pairs [] text)

/-- The bytes of a text. -/
def textBytes (text : List Char) : Bytes :=
  text.flatMap String.utf8EncodeChar

/-- Reads a text of digits. -/
def decode (text : List Char) : Except Error Bytes :=
  decodeBytes (textBytes text)

end Hex

end SpendScript
