import SpendScript.Command.Execute
import SpendScript.Command.Help

/-!
# The program as a process

What the program writes and how it ends, given its command line and the files that it can read.
Work is done in a fixed order, so that of two errors the same one is reported: first the texts are
loaded, that of the spender first, then the digest is read, and then everything else.
-/

namespace SpendScript

namespace Command

/-- How a process ends. -/
structure Exit where
  /-- The exit code. -/
  code : Nat
  /-- What is written to standard output. -/
  out : String
  /-- What is written to standard error. -/
  err : String
  deriving Repr, DecidableEq

/-- The exit code for a command line that makes no sense. -/
def misuseCode : Nat := 2

/-- The exit code for errors and for the answer no. -/
def failureCode : Nat := 1

/-- What a service says before it listens. -/
def banner (address : Http.Address) : String :=
  s!"🚀 Starting API server on http://{address.text}\n" ++
    "   Endpoints:\n" ++
    "   ├─ GET  /health\n" ++
    "   ├─ POST /api/run\n" ++
    "   ├─ POST /api/debug\n" ++
    "   ├─ POST /api/compile\n" ++
    "   └─ POST /api/disassemble\n"

/-- Loads the two texts of a spend and reads the digest, in this order. -/
def loadSpend (files : Files) (scriptSig scriptPubKey : Origin) (digest : Option String) :
    Except Error (Spend × Digest) := do
  let scriptSig ← scriptSig.load files
  let scriptPubKey ← scriptPubKey.load files
  let digest ← readDigest digest
  return (⟨scriptSig, scriptPubKey⟩, digest)

/-- How the process ends after an error. -/
def Exit.failure (out : String) (e : Error) : Exit :=
  ⟨failureCode, out, "Error: " ++ e.record ++ "\n"⟩

/-- How the process ends after a command. -/
def Exit.ofOutput : Except Error Output → Exit
  | .ok output => ⟨if output.answer = some false then failureCode else 0, output.text, ""⟩
  | .error e => .failure "" e

/-- How the process ends that does a task.  A service says that it starts and then finds that there
is no network. -/
def Task.exit (files : Files) (json : Bool) : Task → Exit
  | .run scriptSig scriptPubKey digest => .ofOutput do
    let (spend, digest) ← loadSpend files scriptSig scriptPubKey digest
    return Command.run spend digest json
  | .debug scriptSig scriptPubKey digest => .ofOutput do
    let (spend, digest) ← loadSpend files scriptSig scriptPubKey digest
    return Command.debug spend digest json
  | .compile source => .ofOutput do
    Command.compile (← source.load files) json
  | .disassemble hex => .ofOutput (Command.disassemble hex)
  | .sign key digest type => .ofOutput do
    let digest ← readDigest digest
    let type ← readSigHash type
    Command.sign key digest type json
  | .serve address digest => match readDigest digest with
    | .ok _ => .failure (banner address) .noNetwork
    | .error e => .failure "" e

/-- How the process ends. -/
def Invocation.exit (files : Files) : Invocation → Exit
  | .task what json => what.exit files json
  | .help => ⟨0, Help.onProgram, ""⟩
  | .helpOn command => ⟨0, Help.onCommand command, ""⟩
  | .helpOnHelp => ⟨0, Help.onHelp, ""⟩
  | .version => ⟨0, Help.program ++ " " ++ Help.version ++ "\n", ""⟩
  | .misuse => ⟨misuseCode, "", Help.onProgram⟩

/-- How the process ends that a command line starts. -/
def exitOf (files : Files) (words : List String) : Exit :=
  (Invocation.ofWords words).exit files

end Command

end SpendScript
