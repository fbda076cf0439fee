import SpendScript.Bytes.Hex
import SpendScript.Instruction
import SpendScript.Number
import SpendScript.Opcode.Name

/-!
# Tokens of source text

A token is a word of source text with a meaning: bytes in hexadecimal after `0x`, a decimal number,
or the name of an opcode.  The first two are pushes; a number that has an opcode of its own is
pushed by it, and all other data by the shortest push.
-/

namespace SpendScript

/-- Why a word is no token; each names the word. -/
inductive SourceError
  /-- The word is no name of an opcode, and neither of the other kinds. -/
  | unknownOpcode (word : String)
  /-- The word starts like bytes in hexadecimal. -/
  | badHex (word : String)
  /-- The word is a number that is too large. -/
  | badNumber (word : String)
  deriving Repr, DecidableEq

/-- The sentence that reports a word which is no token. -/
def SourceError.message : SourceError → String
  | .unknownOpcode word => "Unknown opcode: " ++ word
  | .badHex word => "Invalid hex literal: " ++ word
  | .badNumber word => "Invalid number: " ++ word

/-- The push of a number that takes up the least space. -/
def Instruction.pushNumber (n : Int) : Instruction :=
  if n = 0 then .push .direct []
  else match Constant.ofInt? n with
    | some c => .operation (.constant c)
    | none => .pushOf (Number.encode n)

/-- A word of source text with a meaning. -/
inductive Token
  /-- Bytes to push. -/
  | data (bytes : Bytes)
  /-- A number to push. -/
  | number (n : Int)
  /-- An opcode. -/
  | opcode (op : Opcode)
  deriving Repr, DecidableEq

namespace Token

/-- Smallest number that source text can name. -/
def minNumber : Int := -0x8000000000000000

/-- Largest number that source text can name. -/
def maxNumber : Int := 0x7fffffffffffffff

/-- The number that decimal digits spell, if it is at most `most`. -/
def decimalUpTo? (most : Nat) (digits : List Char) : Option Nat :=
  digits.foldlM (fun n c =>
    let n := 10 * n + (c.toNat - 48)
    if n ≤ most then some n else none) 0

/-- The sign of a word and what follows it. -/
def splitSign : List Char → Bool × List Char
  | '-' :: digits => (true, digits)
  | digits => (false, digits)

/-- The word is one or more decimal digits, perhaps after a minus sign. -/
def isDecimal (word : List Char) : Bool :=
  let digits := (splitSign word).2
  !digits.isEmpty && digits.all Char.isDigit

/-- The number that a decimal word spells, if source text can name it. -/
def decimal? (word : List Char) : Option Int :=
  match splitSign word with
  | (true, digits) => (decimalUpTo? minNumber.natAbs digits).map fun n => -(n : Int)
  | (false, digits) => (decimalUpTo? maxNumber.natAbs digits).map fun n => (n : Int)

/-- Reads a word. -/
def read (word : List Char) : Except SourceError Token :=
  match word with
  | '0' :: 'x' :: digits =>
    match Hex.decode digits with
    | .ok bytes => .ok (.data bytes)
    | .error _ => .error (.badHex (String.ofList word))
  | _ =>
    if isDecimal word then
      match decimal? word with
      | some n => .ok (.number n)
      | none => .error (.badNumber (String.ofList word))
    else
      match Opcode.ofName? (String.ofList word) with
      | some op => .ok (.opcode op)
      | none => .error (.unknownOpcode (String.ofList word))

/-- The code of a token. -/
def bytes : Token → Bytes
  | .data bytes => (Instruction.pushOf bytes).bytes
  | .number n => (Instruction.pushNumber n).bytes
  | .opcode op => [op.toByte]

end Token

end SpendScript
