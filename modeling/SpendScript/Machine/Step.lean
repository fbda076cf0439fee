import SpendScript.Crypto.Multisig
import SpendScript.Instruction
import SpendScript.Machine.Operand
import SpendScript.Machine.State

/-!
# One step of a machine

A step reads the instruction at the program counter, moves the counter behind what was read, and
obeys the instruction.  Everything that counts as an operation is counted first.  In a branch
that is not executed, instructions are still read, their sizes and their number are checked, and
the words are obeyed that open, turn and close conditionals or fail wherever they are met; all
others are passed over.  When an instruction has been obeyed, both stacks together are checked.

At the end of the code the step checks that no conditional is open and ends the run.
-/

namespace SpendScript

/-- Most keys of a multiple signature check. -/
def maxKeys : Int := 20

/-- Everything from here on counts as an operation. -/
def Operation.isCounted (op : Operation) : Bool :=
  0x60 < op.toByte

/-- The operation is obeyed also in a branch that is not executed. -/
def Operation.isUnconditional : Operation → Bool
  | .branch _ | .forbidden _ | .disabled _ => true
  | _ => false

namespace Machine

open Effect (onMain onAlt)

variable (m : Machine)

/-! ### Signatures -/

/-- Takes a key and a signature and tells whether they belong together. -/
def checkSignature : Stack.Action Bool := do
  Stack.require 2
  let publicKey ← Stack.pop
  let signature ← Stack.pop
  return m.primitives.signedBy publicKey signature m.digest.bytes

/-- Takes the number of keys, the keys, the number of signatures, the signatures and one more
item, and tells whether the signatures belong to keys in order. -/
def checkSignatures : Stack.Action Bool := do
  let n ← Stack.popCount maxKeys .keyCount
  let publicKeys ← Stack.popMany n
  let k ← Stack.popCount n .signatureCount
  let signatures ← Stack.popMany k
  let _ ← Stack.pop
  return Multisig.accepts (m.primitives.signedBy · · m.digest.bytes) publicKeys signatures

/-- Puts a question to the main stack and leaves the answer on it. -/
def ask : Check → Stack.Action Unit
  | .equal => Stack.equal m.rules.capacity
  | .numEqual => Stack.binary m.rules.capacity .numEqual
  | .checkSig => do
    let answer ← m.checkSignature
    Stack.pushTruth m.rules.capacity answer
  | .checkMultisig => do
    let answer ← m.checkSignatures
    Stack.pushTruth m.rules.capacity answer

/-! ### Conditionals -/

/-- Opens a conditional whose first branch is executed if the top item has the truth value
`sense`; in a branch that is not executed no item is taken. -/
def openBranch (sense : Bool) : Effect Unit := do
  if (← get).isExecuting then
    let truth ← onMain Stack.popTruth
    modify fun s => { s with frames := (truth == sense) :: s.frames }
  else
    modify fun s => { s with frames := false :: s.frames }

/-- Turns the innermost conditional to its other branch. -/
def turnBranch : Effect Unit := fun s =>
  match s.frames with
  | [] => .error .unbalancedConditional s
  | frame :: outer => .ok () { s with frames := m.rules.turn outer frame :: outer }

/-- Closes the innermost conditional. -/
def closeBranch : Effect Unit := fun s =>
  match s.frames with
  | [] => .error .unbalancedConditional s
  | _ :: outer => .ok () { s with frames := outer }

/-- Opens, turns or closes a conditional. -/
def branch : Branch → Effect Unit
  | .ifTrue => openBranch true
  | .ifFalse => openBranch false
  | .otherwise => m.turnBranch
  | .endIf => closeBranch

/-! ### Operations -/

/-- Moves the top item of one stack to the other. -/
def transfer : Transfer → Effect Unit
  | .toAlt => do
    let item ← onMain Stack.pop
    onAlt (Stack.push m.rules.capacity item)
  | .fromAlt => do
    let item ← onAlt Stack.pop
    onMain (Stack.push m.rules.capacity item)

/-- Carries out an operation. -/
def perform (op : Operation) : Effect Unit :=
  match op with
  | .constant c => onMain (Stack.pushNumber m.rules.capacity c.value)
  | .nop _ => pure ()
  | .branch b => m.branch b
  | .verify => onMain (Stack.verifyTop .verify)
  | .giveUp => throw .giveUp
  | .transfer t => m.transfer t
  | .shuffle s => onMain (Stack.shuffle m.rules.capacity s)
  | .equal => onMain (m.ask .equal)
  | .unary u => onMain (Stack.unary m.rules.capacity u)
  | .binary b => onMain (Stack.binary m.rules.capacity b)
  | .within => onMain (Stack.within m.rules.capacity)
  | .hash h => onMain (Stack.mapTop m.rules.capacity (m.primitives.hash h))
  | .codeSeparator => modify fun s => { s with codeSeparator := s.pc }
  | .checkSig => onMain (m.ask .checkSig)
  | .checkMultisig => onMain (m.ask .checkMultisig)
  | .verified c => onMain do
    m.ask c
    Stack.verifyTop (.verified c)
  | .lockTime _ => onMain Stack.lockTime
  | .reserved _ => throw (.invalidOpcode op.toByte)
  | .forbidden _ => throw (.invalidOpcode op.toByte)
  | .disabled _ => throw (.disabledOpcode op.toByte)

/-! ### Instructions -/

/-- Counts one more operation. -/
def count : Effect Unit := fun s =>
  let s := { s with opCount := s.opCount + 1 }
  if s.opCount > maxOperations then .error .opCount s else .ok () s

/-- Obeys an instruction. -/
def obey : Instruction → Effect Unit
  | .push _ data => do
    if data.length > Stack.maxItemSize then throw (.pushSize data.length)
    if (← get).isExecuting then onMain (Stack.push m.rules.capacity data)
  | .operation op => do
    if op.isCounted then count
    if op.isUnconditional || (← get).isExecuting then m.perform op
  | .unassigned byte => do
    count
    if (← get).isExecuting then throw (.invalidOpcode byte)

/-- Fails if both stacks together hold too many items. -/
def checkRoom : Effect Unit := fun s =>
  if s.main.length + s.alt.length > Stack.maxItems then .error .stackSize s else .ok () s

/-- Ends the run, unless a conditional is open. -/
def finish : Effect Unit := fun s =>
  if s.frames.isEmpty then .ok () { s with status := .succeeded }
  else .error .unbalancedConditional s

/-- Reads the instruction that starts with the byte `first`, moves the counter behind it and obeys
it.  At a push that is cut off, the counter moves behind what could be read, and the attempt
fails. -/
def attempt (first : UInt8) (rest : Bytes) : Effect Unit := fun s =>
  match Instruction.read first rest with
  | .truncated size => .error .badStackOperation { s with pc := s.pc + size }
  | .complete instruction size => m.obey instruction { s with pc := s.pc + size }

/-- Obeys the next instruction and checks the room, or ends the run. -/
def advance : Effect Unit := fun s =>
  match m.code.drop s.pc with
  | [] => finish s
  | first :: rest => (do m.attempt first rest; checkRoom : Effect Unit) s

/-- Makes one step.  A fault stops the machine; a machine that has ended stays as it is and gives
the same answer again. -/
def step : Effect Unit := fun s =>
  match s.status with
  | .succeeded => .ok () s
  | .failed fault => .error fault s
  | .running =>
    match m.advance s with
    | .ok () s => .ok () s
    | .error fault s => .error fault { s with status := .failed fault }

/-- The state after one step. -/
def next (s : State) : State :=
  match m.step s with
  | .ok () s => s
  | .error _ s => s

end Machine

end SpendScript
