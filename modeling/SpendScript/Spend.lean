import SpendScript.Machine.Run
import SpendScript.Source.Compiler

/-!
# Spends

A spend is tried by running the code of two source texts as one: that of the spender first, then
that of the output that is spent.  Each text is compiled by itself, and may have only so many
characters besides comments.
-/

namespace SpendScript

/-- Most characters of a source text without its comments. -/
def Source.maxLength : Nat := 350000

/-- The two source texts of a spend. -/
structure Spend where
  /-- The text of the spender. -/
  scriptSig : String := ""
  /-- The text of the output. -/
  scriptPubKey : String := ""
  deriving Repr, DecidableEq

/-- Why a spend has no verdict. -/
inductive SpendError
  /-- The text of the spender has this many characters, which is too many. -/
  | scriptSigTooLong (length : Nat)
  /-- The text of the output has this many characters, which is too many. -/
  | scriptPubKeyTooLong (length : Nat)
  /-- A text does not compile. -/
  | source (error : SourceError)
  /-- The machine refused the code or stopped. -/
  | fault (fault : Fault)
  deriving Repr, DecidableEq

/-- The sentence that reports why a spend has no verdict. -/
def SpendError.message : SpendError → String
  | .scriptSigTooLong length => s!"ScriptSig exceeds maximum length: {length} characters"
  | .scriptPubKeyTooLong length => s!"ScriptPubKey exceeds maximum length: {length} characters"
  | .source e => "Compile error: " ++ e.message
  | .fault f => "Script error: " ++ f.message

/-- Whether a spend succeeds, and what went wrong if something did. -/
structure Verdict where
  /-- The code ran to its end and left a true item on top. -/
  success : Bool
  /-- What went wrong. -/
  error : Option String
  deriving Repr, DecidableEq

/-- A verdict with the steps that led to it. -/
structure TracedVerdict where
  /-- The steps. -/
  trace : List TraceStep
  /-- The verdict. -/
  verdict : Verdict
  deriving Repr, DecidableEq

/-- The verdict that an answer amounts to. -/
def Verdict.ofAnswer : Except SpendError Bool → Verdict
  | .ok success => ⟨success, none⟩
  | .error e => ⟨false, some e.message⟩

namespace Spend

/-- Removes the comments of both texts and checks their lengths. -/
def validate (spend : Spend) : Except SpendError Spend := do
  let scriptSig := Source.stripComments spend.scriptSig
  if scriptSig.length > Source.maxLength then
    throw (.scriptSigTooLong scriptSig.length)
  let scriptPubKey := Source.stripComments spend.scriptPubKey
  if scriptPubKey.length > Source.maxLength then
    throw (.scriptPubKeyTooLong scriptPubKey.length)
  return ⟨scriptSig, scriptPubKey⟩

/-- The code of one text. -/
def assemble (text : String) : Except SpendError Bytes :=
  (Source.assemble text).mapError .source

/-- The code of both texts. -/
def compile (spend : Spend) : Except SpendError Bytes := do
  let spend ← spend.validate
  let unlocking ← assemble spend.scriptSig
  let locking ← assemble spend.scriptPubKey
  return unlocking ++ locking

/-- The code of both texts, if one compiler is used for them. -/
def compileWith (c : Compiler) (spend : Spend) : Except SpendError Bytes := do
  let spend ← spend.validate
  let both : Compiler.Action Bytes := do
    let unlocking ← Compiler.compile spend.scriptSig
    let locking ← Compiler.compile spend.scriptPubKey
    return unlocking ++ locking
  (Compiler.answer (both c)).mapError .source

variable (primitives : Primitives) (digest : Digest)

/-- The machine that runs a spend. -/
def prepare (spend : Spend) : Except SpendError Machine := do
  let code ← spend.compile
  (Machine.load primitives digest code).mapError .fault

/-- Runs a spend. -/
def evaluate (spend : Spend) : Except SpendError Bool := do
  let machine ← spend.prepare primitives digest
  machine.run.mapError .fault

/-- The verdict on a spend. -/
def run (spend : Spend) : Verdict :=
  .ofAnswer (spend.evaluate primitives digest)

/-- The verdict on a spend with the steps that led to it. -/
def debug (spend : Spend) : TracedVerdict :=
  match spend.prepare primitives digest with
  | .error e => ⟨[], .ofAnswer (.error e)⟩
  | .ok machine =>
    let (steps, answer, _) := machine.trace {}
    ⟨steps, .ofAnswer (answer.mapError .fault)⟩

end Spend

end SpendScript
