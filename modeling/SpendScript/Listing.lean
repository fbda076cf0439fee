import SpendScript.Bytes.Hex
import SpendScript.Instruction
import SpendScript.Opcode.Name

/-!
# Listings

A listing shows code as text, one line for each instruction: the offset, the name of the opcode,
and the bytes that it pushes.  A push that is cut off ends the listing.

Listings are made from the bytes alone, by a reader of their own that has no part in how a machine
obeys code.
-/

namespace SpendScript

namespace Listing

/-! ### Reading -/

/-- The first `n` bytes of some code, if there are as many. -/
def first? (n : Nat) (code : Bytes) : Option Bytes :=
  let found := code.take n
  if found.length = n then some found else none

/-- The number that the first `width` bytes of some code spell, least significant byte first, if
there are as many. -/
def number? (width : Nat) (code : Bytes) : Option Nat :=
  (first? width code).map fun found => found.foldr (fun b n => (n <<< 8) ||| b.toNat) 0

/-- For the first byte of a push, the width of the length behind it and the number of bytes that
are pushed, which is missing if the length is cut off. -/
def push? (opcode : UInt8) (rest : Bytes) : Option (Nat × Option Nat) :=
  if 1 ≤ opcode.toNat ∧ opcode.toNat ≤ Instruction.maxDirect then some (0, some opcode.toNat)
  else if opcode = PushWidth.one.toByte then some (1, number? 1 rest)
  else if opcode = PushWidth.two.toByte then some (2, number? 2 rest)
  else if opcode = PushWidth.four.toByte then some (4, number? 4 rest)
  else none

/-! ### Lines -/

/-- An offset as it is written in listings and traces: in hexadecimal with at least four digits. -/
def offsetText (offset : Nat) : String :=
  String.ofList (Hex.ofNatPadded 4 offset)

/-- The line for what stands at an offset, without a newline. -/
def line (offset : Nat) (text : String) : String :=
  offsetText offset ++ ": " ++ text

/-- What a line says about a byte that begins no push. -/
def plainText (opcode : UInt8) : String :=
  match Opcode.ofByte? opcode with
  | some op => op.name
  | none => "UNKNOWN 0x" ++ Hex.encode [opcode]

/-- What a line says about a push of some bytes. -/
def pushText (opcode : UInt8) (data : Bytes) : String :=
  Opcode.describeByte opcode ++ " 0x" ++ Hex.encode data

/-- What a line says about a push that is cut off. -/
def cutText : String := "<truncated push>"

/-- What the line says about the instruction that starts with `opcode`, and the number of its
bytes, unless it is cut off. -/
def item? (opcode : UInt8) (rest : Bytes) : Option (String × Nat) :=
  match push? opcode rest with
  | none => some (plainText opcode, 1)
  | some (width, length?) => do
    let data ← first? (← length?) (rest.drop width)
    return (pushText opcode data, 1 + width + data.length)

/-- Lists the code that stands from an offset on, behind the lines in `output`. -/
def listFrom (output : String) (offset : Nat) : Bytes → String
  | [] => output
  | opcode :: rest =>
    match item? opcode rest with
    | none => output ++ line offset cutText ++ "\n"
    | some (text, size) =>
      listFrom (output ++ line offset text ++ "\n") (offset + size) (rest.drop (size - 1))
termination_by code => code.length
decreasing_by simp only [List.length_cons, List.length_drop]; omega

/-- The listing of some code. -/
def ofCode (code : Bytes) : String :=
  listFrom "" 0 code

end Listing

end SpendScript
