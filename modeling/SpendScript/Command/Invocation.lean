import SpendScript.Command.Grammar
import SpendScript.Command.Input
import SpendScript.Http.Target

/-!
# Command lines

The commands of the program with their options, and what a command line asks for.
-/

namespace SpendScript

namespace Command

/-- The options of the commands that run a spend. -/
def spendOptions : List OptionForm :=
  [{ long := "sig", short := some 's', summary := "scriptSig source text" },
   { long := "sig-file", kind := .path, summary := "File containing the scriptSig source" },
   { long := "pubkey", short := some 'p', summary := "scriptPubKey source text" },
   { long := "pubkey-file", kind := .path,
     summary := "File containing the scriptPubKey source" },
   { long := "digest", short := some 'd',
     summary := "32-byte hex digest that signatures are checked against" }]

/-- The command that runs a spend. -/
def runForm : CommandForm where
  name := "run"
  summary := "Run a scriptSig/scriptPubKey pair and report the verdict"
  options := spendOptions

/-- The command that shows the steps of a spend. -/
def debugForm : CommandForm where
  name := "debug"
  summary := "Run a scriptSig/scriptPubKey pair and print every step"
  options := spendOptions

/-- The command that compiles. -/
def compileForm : CommandForm where
  name := "compile"
  summary := "Compile script source to hex bytecode"
  options := [
    { long := "file", short := some 'f', kind := .path,
      summary := "File containing script source" }]
  operand := some { name := "SOURCE", isRequired := false, summary := "Script source text" }

/-- The command that lists code. -/
def disassembleForm : CommandForm where
  name := "disasm"
  summary := "Disassemble hex bytecode"
  options := []
  operand := some { name := "HEX", isRequired := true, summary := "Hex-encoded bytecode" }

/-- The command that signs. -/
def signForm : CommandForm where
  name := "sign"
  summary := "Sign a digest to build CHECKSIG test vectors"
  options :=
    [{ long := "key", short := some 'k', isRequired := true,
       summary := "Hex-encoded private key" },
     { long := "digest", short := some 'd', summary := "32-byte hex digest to sign" },
     { long := "sighash", default := some "all",
       summary := "Sighash type (all, none, single, *-anyonecanpay, or 0xNN)" }]

/-- The command that starts the service. -/
def serveForm : CommandForm where
  name := "serve"
  summary := "Start the REST API server"
  options :=
    [{ long := "host", default := some "0.0.0.0", summary := "Address to bind" },
     { long := "port", short := some 'p', kind := .port, default := some "3000",
       environment := some "PORT", summary := "Port to listen on" },
     { long := "digest", short := some 'd',
       summary := "32-byte hex digest that signatures are checked against" }]

/-- The commands. -/
def forms : List CommandForm :=
  [runForm, debugForm, compileForm, disassembleForm, signForm, serveForm]

/-- What a command is asked to do. -/
inductive Task
  /-- Run a spend. -/
  | run (scriptSig scriptPubKey : Origin) (digest : Option String)
  /-- Show the steps of a spend. -/
  | debug (scriptSig scriptPubKey : Origin) (digest : Option String)
  /-- Compile a source text. -/
  | compile (source : Origin)
  /-- List code. -/
  | disassemble (hex : String)
  /-- Sign a digest. -/
  | sign (key : String) (digest : Option String) (type : String)
  /-- Start the service. -/
  | serve (address : Http.Address) (digest : Option String)
  deriving Repr, DecidableEq

/-- What a command line asks for. -/
inductive Invocation
  /-- Do something, and report on it in JSON or in words. -/
  | task (task : Task) (json : Bool)
  /-- Explain the program. -/
  | help
  /-- Explain a command. -/
  | helpOn (command : CommandForm)
  /-- Explain the command that explains. -/
  | helpOnHelp
  /-- Tell the version. -/
  | version
  /-- Nothing that makes sense. -/
  | misuse

namespace Given

/-- The value of an option. -/
def value? (given : Given) (long : String) : Option String :=
  given.values.lookup long

/-- What a command does with what it is given. -/
def task (command : CommandForm) (given : Given) : Task :=
  let scriptSig : Origin := ⟨given.value? "sig", given.value? "sig-file"⟩
  let scriptPubKey : Origin := ⟨given.value? "pubkey", given.value? "pubkey-file"⟩
  let digest := given.value? "digest"
  match command.name with
  | "run" => .run scriptSig scriptPubKey digest
  | "debug" => .debug scriptSig scriptPubKey digest
  | "compile" => .compile ⟨given.operand, given.value? "file"⟩
  | "disasm" => .disassemble (given.operand.getD "")
  | "sign" =>
    .sign ((given.value? "key").getD "") digest ((given.value? "sighash").getD "all")
  | _ =>
    let standard : Http.Address := {}
    let port := ((given.value? "port").bind port?).getD standard.port
    .serve ⟨(given.value? "host").getD standard.host, port⟩ digest

end Given

namespace Invocation

/-- What is explained, given the words behind the command that explains. -/
def ofTopics : List String → Invocation
  | [] => .help
  | ["help"] => .helpOnHelp
  | [name] => match forms.find? (·.name == name) with
    | some command => .helpOn command
    | none => .misuse
  | _ => .misuse

/-- What a command is asked to do; `json` was asked for before its name. -/
def ofCommand (json : Bool) (command : CommandForm) (words : List String) : Invocation :=
  match Given.parse command words with
  | .ok given => .task (given.task command) (json || given.json)
  | .error .help => .helpOn command
  | .error .version | .error .misuse => .misuse

/-- Reads the words of a command line; `json` was asked for in those already read. -/
def read (json : Bool) : List String → Invocation
  | [] => .misuse
  | text :: rest =>
    match Word.ofText [] true text with
    | .json => if json then .misuse else read true rest
    | .help => .help
    | .version => .version
    | .operand name =>
      if name = "help" then ofTopics rest
      else match forms.find? (·.name == name) with
        | some command => ofCommand json command rest
        | none => .misuse
    | _ => .misuse

/-- Reads a command line. -/
def ofWords (words : List String) : Invocation :=
  read false words

end Invocation

end Command

end SpendScript
