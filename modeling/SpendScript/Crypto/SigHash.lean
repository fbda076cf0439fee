import SpendScript.Bytes.Basic

/-!
# Signature hash types

The last byte of a signature in code tells which parts of a spend the signature covers: which
outputs, and whether other inputs may be added.
-/

namespace SpendScript

/-- The outputs that a signature covers. -/
inductive Outputs
  /-- All of them. -/
  | all
  /-- None of them. -/
  | none
  /-- The one at the place of the input. -/
  | single
  deriving Repr, DecidableEq

/-- What a signature covers. -/
structure SigHash where
  /-- The outputs. -/
  outputs : Outputs
  /-- Other inputs may be added. -/
  anyoneCanPay : Bool
  deriving Repr, DecidableEq

namespace SigHash

/-- The byte of the outputs. -/
def outputsByte : Outputs → UInt8
  | .all => 0x01
  | .none => 0x02
  | .single => 0x03

/-- The byte of a signature hash type. -/
def toByte (h : SigHash) : UInt8 :=
  if h.anyoneCanPay then outputsByte h.outputs + 0x80 else outputsByte h.outputs

/-- Every signature hash type. -/
def every : List SigHash :=
  [⟨.all, false⟩, ⟨.none, false⟩, ⟨.single, false⟩, ⟨.all, true⟩, ⟨.none, true⟩, ⟨.single, true⟩]

/-- The signature hash type of a byte, if it has one. -/
def ofByte? (b : UInt8) : Option SigHash :=
  every.find? fun h => h.toByte == b

/-- The name in reports. -/
def name (h : SigHash) : String :=
  let outputs := match h.outputs with
    | .all => "All"
    | .none => "None"
    | .single => "Single"
  if h.anyoneCanPay then outputs ++ "AnyoneCanPay" else outputs

/-- The word on the command line. -/
def word (h : SigHash) : String :=
  let outputs := match h.outputs with
    | .all => "all"
    | .none => "none"
    | .single => "single"
  if h.anyoneCanPay then outputs ++ "-anyonecanpay" else outputs

theorem ofByte?_toByte (h : SigHash) : ofByte? h.toByte = some h := by
  rcases h with ⟨outputs, anyone⟩
  cases outputs <;> cases anyone <;> decide

end SigHash

end SpendScript
