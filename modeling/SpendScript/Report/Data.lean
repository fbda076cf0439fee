import SpendScript.Json.Value
import SpendScript.Listing
import SpendScript.Spend

/-!
# Reports for programs

The same reports as JSON values: verdicts, traces, compiled code and signatures.
-/

namespace SpendScript

open Json (Value)

/-- A step as a value, with the items of its stack from the bottom to the top. -/
def TraceStep.toValue (step : TraceStep) : Value :=
  .object [
    ("offset", .number step.offset),
    ("opcode", .string step.opcode),
    ("stack", .array (step.stack.reverse.map fun item => .string (Hex.encode item)))]

/-- The entries of a verdict; there is one for what went wrong only if something did. -/
def Verdict.entries (v : Verdict) : List (String × Value) :=
  ("success", .bool v.success) :: match v.error with
    | some error => [("error", .string error)]
    | none => []

/-- A verdict as a value. -/
def Verdict.toValue (v : Verdict) : Value :=
  .object v.entries

/-- A verdict with its trace as a value. -/
def TracedVerdict.toValue (v : TracedVerdict) : Value :=
  .object (("trace", .array (v.trace.map TraceStep.toValue)) :: v.verdict.entries)

namespace Report

/-- A listing as a value. -/
def listingValue (bytes : Bytes) : Value :=
  .object [("disassembly", .string (Listing.ofCode bytes))]

/-- Compiled code as a value. -/
def codeValue (bytes : Bytes) : Value :=
  .object [
    ("disassembly", .string (Listing.ofCode bytes)),
    ("hex", .string (Hex.encode bytes)),
    ("size", .number bytes.length)]

/-- A signature, what it covers, and the public key that it belongs to, as a value. -/
def signatureValue (signature publicKey : Bytes) (typeName : String) : Value :=
  .object [
    ("publicKey", .string (Hex.encode publicKey)),
    ("sighash", .string typeName),
    ("signature", .string (Hex.encode signature))]

end Report

end SpendScript
