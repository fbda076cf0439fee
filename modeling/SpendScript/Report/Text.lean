import SpendScript.Listing
import SpendScript.Spend

/-!
# Reports for people

What the commands print when nobody asks for data: verdicts, the table of a trace, compiled code
and signatures.
-/

namespace SpendScript

namespace Report

/-- The digits of a number, filled up with blanks on the left. -/
def alignRight (width n : Nat) : String :=
  let text := toString n
  String.ofList (List.replicate (width - text.length) ' ') ++ text

/-- A text, filled up with blanks on the right. -/
def alignLeft (width : Nat) (text : String) : String :=
  text ++ String.ofList (List.replicate (width - text.length) ' ')

/-- The items of a stack from the bottom to the top. -/
def stack (s : Stack) : String :=
  "[" ++ ", ".intercalate (s.reverse.map Hex.encode) ++ "]"

/-- The row of step `number` in the table of a trace. -/
def row (number : Nat) (step : TraceStep) : String :=
  "   " ++ alignRight 4 number ++ " | " ++ Listing.offsetText step.offset ++ " | " ++
    alignLeft 24 step.opcode ++ " | " ++ stack step.stack ++ "\n"

/-- A verdict. -/
def verdict (v : Verdict) : String :=
  if v.success then "✅ Script succeeded\n"
  else "❌ Script failed\n" ++ match v.error with
    | some error => "   └─ " ++ error ++ "\n"
    | none => ""

/-- The table of a trace with the verdict below it. -/
def trace (v : TracedVerdict) : String :=
  "🔍 Execution trace\n" ++ String.join (v.trace.zipIdx.map fun (step, i) => row (i + 1) step) ++
    "\n" ++ verdict v.verdict

/-- Compiled code. -/
def code (bytes : Bytes) : String :=
  "✅ Compiled successfully!\n" ++
    s!"   ├─ Size: {bytes.length} bytes\n" ++
    s!"   └─ Hex: {Hex.encode bytes}\n" ++
    "\n📜 Disassembly:\n" ++ Listing.ofCode bytes

/-- A signature and the public key that it belongs to. -/
def signature (signature publicKey : Bytes) : String :=
  "✍️  Signature created\n" ++
    s!"   ├─ Signature: 0x{Hex.encode signature}\n" ++
    s!"   └─ Public key: 0x{Hex.encode publicKey}\n"

end Report

end SpendScript
