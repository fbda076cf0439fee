import SpendScript.Command.Input
import SpendScript.Report.Data
import SpendScript.Report.Text

/-!
# The commands

What each command prints: a report for people or, on request, for programs.
-/

namespace SpendScript

namespace Command

/-- What a command prints, and whether it was asked something and the answer is no. -/
structure Output where
  /-- The text. -/
  text : String
  /-- The answer, if there was a question. -/
  answer : Option Bool := none
  deriving Repr, DecidableEq

/-- A value as it is printed. -/
def document (value : Json.Value) : String :=
  Json.layout value ++ "\n"

/-- Runs a spend and prints the verdict. -/
def run (spend : Spend) (digest : Digest) (json : Bool) : Output :=
  let v := spend.run .standard digest
  ⟨if json then document v.toValue else Report.verdict v, some v.success⟩

/-- Runs a spend and prints every step and the verdict. -/
def debug (spend : Spend) (digest : Digest) (json : Bool) : Output :=
  let v := spend.debug .standard digest
  ⟨if json then document v.toValue else Report.trace v, some v.verdict.success⟩

/-- Compiles a source text and prints the code. -/
def compile (source : String) (json : Bool) : Except Error Output :=
  match Source.assemble source with
  | .ok code => .ok ⟨if json then document (Report.codeValue code) else Report.code code, none⟩
  | .error e => .error (.source e)

/-- Prints the listing of code in hexadecimal, perhaps behind `0x` and between blanks. -/
def disassemble (hex : String) : Except Error Output :=
  match Hex.decode (dropMarks (Text.trim hex.toList)) with
  | .ok code => .ok ⟨Listing.ofCode code, none⟩
  | .error e => .error (.hex e)

/-- Signs a digest and prints the signature. -/
def sign (key : String) (digest : Digest) (type : SigHash) (json : Bool) :
    Except Error Output := do
  let key ← (SecretKey.read key.toList).mapError .signing
  let signature ← (key.sign digest.bytes type).mapError .signing
  if json then
    return ⟨document (Report.signatureValue signature key.publicKey type.name), none⟩
  else
    return ⟨Report.signature signature key.publicKey, none⟩

end Command

end SpendScript
