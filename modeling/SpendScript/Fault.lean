import SpendScript.Bytes.Hex
import SpendScript.Opcode.Basic

/-!
# Faults

The reasons why a machine refuses its code or stops before the end of it, and the sentence that
reports each.
-/

namespace SpendScript

/-- Why a machine stopped. -/
inductive Fault
  /-- An item that is not there was asked for, or the code ends inside a push. -/
  | badStackOperation
  /-- An operand is too long or not in its shortest encoding. -/
  | numberRange
  /-- A word without a meaning was executed, or a forbidden one was met. -/
  | invalidOpcode (byte : UInt8)
  /-- A word that was switched off was met. -/
  | disabledOpcode (byte : UInt8)
  /-- A conditional was turned or closed that is not open, or left open at the end. -/
  | unbalancedConditional
  /-- An item of this many bytes is too long. -/
  | pushSize (length : Nat)
  /-- The stacks hold too many items. -/
  | stackSize
  /-- Code of this many bytes is too long. -/
  | codeSize (length : Nat)
  /-- The code has too many operations. -/
  | opCount
  /-- The number of keys of a multiple signature check is out of range. -/
  | keyCount
  /-- The number of signatures of a multiple signature check is out of range. -/
  | signatureCount
  /-- An item that had to be true was false. -/
  | verify
  /-- A question that had to be answered yes was answered no. -/
  | verified (check : Check)
  /-- The code gave up. -/
  | giveUp
  /-- A lock time was negative. -/
  | negativeLockTime
  /-- The run was stopped from outside. -/
  | cancelled
  deriving Repr, DecidableEq

/-- The word that asks a question and fails on the answer no. -/
def Check.verifyName : Check → String
  | .equal => "OP_EQUALVERIFY"
  | .numEqual => "OP_NUMEQUALVERIFY"
  | .checkSig => "OP_CHECKSIGVERIFY"
  | .checkMultisig => "OP_CHECKMULTISIGVERIFY"

/-- The sentence that reports a fault. -/
def Fault.message : Fault → String
  | .badStackOperation => "Invalid stack operation"
  | .numberRange => "Given number is out of range"
  | .invalidOpcode byte => "Invalid opcode: 0x" ++ Hex.encode [byte]
  | .disabledOpcode byte => "Disabled opcode: 0x" ++ Hex.encode [byte]
  | .unbalancedConditional => "Unbalanced conditional"
  | .pushSize length => s!"Push size exceeded: {length} bytes"
  | .stackSize => "Stack size exceeded"
  | .codeSize length => s!"Script size exceeded: {length} bytes"
  | .opCount => "Operation count exceeded"
  | .keyCount => "Public key count out of range"
  | .signatureCount => "Signature count out of range"
  | .verify => "Script failed an OP_VERIFY operation"
  | .verified check => s!"Script failed an {check.verifyName} operation"
  | .giveUp => "OP_RETURN was encountered"
  | .negativeLockTime => "Negative locktime"
  | .cancelled => "Execution cancelled"

end SpendScript
