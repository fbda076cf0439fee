import SpendScript.Crypto.SecretKey
import SpendScript.Source.Token
import SpendScript.Text.Quoted

/-!
# Errors of commands

Every error has a sentence, and a form in which the process reports it when it ends: sentences of
the commands themselves in quotes, all others by kind.
-/

namespace SpendScript

namespace Command

/-- Why a file could not be read. -/
inductive FileError
  /-- There is no such file. -/
  | missing
  /-- It is a directory. -/
  | isDirectory
  /-- It is said to lie below a file. -/
  | notDirectory
  /-- It holds no text. -/
  | notText
  deriving Repr, DecidableEq

/-- The reason in words. -/
def FileError.message : FileError → String
  | .missing => "No such file or directory (os error 2)"
  | .isDirectory => "Is a directory (os error 21)"
  | .notDirectory => "Not a directory (os error 20)"
  | .notText => "stream did not contain valid UTF-8"

/-- Why a command failed. -/
inductive Error
  /-- A file could not be read. -/
  | unreadable (name : String) (reason : FileError)
  /-- A digest has the wrong number of bytes. -/
  | digestLength (length : Nat)
  /-- There is no such signature hash type. -/
  | unknownSigHash (name : String)
  /-- A text is not hexadecimal. -/
  | hex (error : Hex.Error)
  /-- A source text does not compile. -/
  | source (error : SourceError)
  /-- Nothing was signed. -/
  | signing (error : SigningError)
  /-- There is no network. -/
  | noNetwork

/-- The sentence that reports an error. -/
def Error.message : Error → String
  | .unreadable name reason =>
    s!"Failed to read script file {Text.quoted name}: {reason.message}"
  | .digestLength length => s!"Digest must be 32 bytes, got {length}"
  | .unknownSigHash name => "Unknown sighash type: " ++ name
  | .hex e => e.message
  | .source e => e.message
  | .signing e => e.message
  | .noNetwork => "No network to listen on"

/-- A source error with its parts. -/
def sourceRecord : SourceError → String
  | .unknownOpcode word => s!"UnknownOpcode({Text.quoted word})"
  | .badHex word => s!"InvalidHex({Text.quoted word})"
  | .badNumber word => s!"InvalidNumber({Text.quoted word})"

/-- A signing error with its parts. -/
def signingRecord : SigningError → String
  | .badKey => "InvalidPrivateKey"
  | .badDigest length => s!"InvalidDigest({length})"

/-- The form in which the process reports an error when it ends. -/
def Error.record : Error → String
  | .hex e => e.record
  | .source e => sourceRecord e
  | .signing e => signingRecord e
  | e => Text.quoted e.message

end Command

end SpendScript
