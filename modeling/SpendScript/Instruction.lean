import SpendScript.Opcode.Basic

/-!
# Instructions in a byte string

Code is a byte string that holds instructions one after another.  `Instruction.read` finds the
instruction at the start of a byte string, and machines go by it.  `Instruction.bytes` writes one.

A push holds its bytes behind the opcode, and before them their number if the opcode asks for it.
Code can end too early only inside a push: `Fetched.truncated` says how far it could be read.
-/

namespace SpendScript

/-- How a push gives the number of its bytes: by the opcode itself or in a length behind it. -/
inductive PushForm
  | direct
  | sized (width : PushWidth)
  deriving Repr, DecidableEq

/-- One instruction. -/
inductive Instruction
  /-- Push these bytes. -/
  | push (form : PushForm) (data : Bytes)
  /-- Carry out an operation. -/
  | operation (op : Operation)
  /-- A byte that means nothing. -/
  | unassigned (byte : UInt8)
  deriving Repr, DecidableEq

/-- What stands at the start of a byte string. -/
inductive Fetched
  /-- An instruction of this many bytes. -/
  | complete (instruction : Instruction) (size : Nat)
  /-- A push that is cut off, of which this many bytes could be read: without the length if that
  is cut off, else with the length and without the data. -/
  | truncated (size : Nat)
  deriving Repr, DecidableEq

namespace Instruction

/-- Largest number of bytes that a direct push holds. -/
def maxDirect : Nat := 0x4b

/-- Reads the data of a push whose opcode and length took up `before` bytes. -/
def readData (form : PushForm) (before length : Nat) (rest : Bytes) : Fetched :=
  let data := rest.take length
  if data.length < length then .truncated before
  else .complete (.push form data) (before + length)

/-- Reads the length of a push and then its data. -/
def readSized (width : PushWidth) (rest : Bytes) : Fetched :=
  let length := rest.take width.size
  if length.length < width.size then .truncated 1
  else readData (.sized width) (1 + width.size) (Bytes.toNatLE length) (rest.drop width.size)

/-- Reads the instruction that starts with `first`. -/
def read (first : UInt8) (rest : Bytes) : Fetched :=
  match Opcode.ofByte? first with
  | some .empty => .complete (.push .direct []) 1
  | some (.pushData width) => readSized width rest
  | some (.operation op) => .complete (.operation op) 1
  | none =>
    if first.toNat ≤ maxDirect then readData .direct 1 first.toNat rest
    else .complete (.unassigned first) 1

/-- The bytes of an instruction. -/
def bytes : Instruction → Bytes
  | .push .direct data => UInt8.ofNat data.length :: data
  | .push (.sized width) data => width.toByte :: Bytes.ofNatLE width.size data.length ++ data
  | .operation op => [op.toByte]
  | .unassigned byte => [byte]

/-- The push of some bytes that takes up the least space. -/
def pushOf (data : Bytes) : Instruction :=
  let n := data.length
  if n ≤ maxDirect then .push .direct data
  else if n ≤ 0xff then .push (.sized .one) data
  else if n ≤ 0xffff then .push (.sized .two) data
  else .push (.sized .four) data

end Instruction

/-- What stands at an offset of a byte string. -/
structure Located where
  /-- Where it starts. -/
  offset : Nat
  /-- Its first byte. -/
  first : UInt8
  /-- What stands there. -/
  fetched : Fetched
  deriving Repr, DecidableEq

namespace Instruction

/-- Reads one instruction after another; `found` holds those read so far, last first.  A push
that is cut off ends the walk. -/
def scanFrom (found : List Located) (offset : Nat) : Bytes → List Located
  | [] => found.reverse
  | first :: rest =>
    match read first rest with
    | .truncated size => (⟨offset, first, .truncated size⟩ :: found).reverse
    | .complete instruction size =>
      scanFrom (⟨offset, first, .complete instruction size⟩ :: found) (offset + size)
        (rest.drop (size - 1))
termination_by code => code.length
decreasing_by simp only [List.length_cons, List.length_drop]; omega

/-- The instructions of some code, with the offset of each. -/
def scan (code : Bytes) : List Located :=
  scanFrom [] 0 code

end Instruction

end SpendScript
