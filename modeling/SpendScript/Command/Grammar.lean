/-!
# The form of command lines

A command line names a command and gives it options and operands, in any order.  An option has a
long name behind two dashes, some have a letter behind one dash, and each takes a value:
behind an equals sign, behind the letter, or in the next word.  A value in the next word does not
start with a dash, unless it is nothing else.  Behind `--` there are operands only.

Two flags are known everywhere: the one that asks for JSON and the one that asks for help.  No
option and no flag is given twice.  The words are read from left to right, and the first fault or
request for help ends the reading.
-/

namespace SpendScript

namespace Command

/-- What the value of an option may be. -/
inductive ValueKind
  /-- Any text. -/
  | text
  /-- The name of a file, which is not empty. -/
  | path
  /-- A port. -/
  | port
  deriving Repr, DecidableEq

/-- An option that takes a value. -/
structure OptionForm where
  /-- The long name. -/
  long : String
  /-- The letter. -/
  short : Option Char := none
  /-- What the value may be. -/
  kind : ValueKind := .text
  /-- The option has to be given. -/
  isRequired : Bool := false
  /-- The value when the option is not given, in words. -/
  default : Option String := none
  /-- The variable of the environment that also gives the value. -/
  environment : Option String := none
  /-- What the option is for. -/
  summary : String

/-- An operand. -/
structure OperandForm where
  /-- The name. -/
  name : String
  /-- The operand has to be given. -/
  isRequired : Bool
  /-- What the operand is for. -/
  summary : String

/-- A command. -/
structure CommandForm where
  /-- The name. -/
  name : String
  /-- What the command is for. -/
  summary : String
  /-- Its options. -/
  options : List OptionForm
  /-- Its operand, if it takes one. -/
  operand : Option OperandForm := none

/-- What a command line gives to a command. -/
structure Given where
  /-- JSON was asked for behind the name of the command. -/
  json : Bool := false
  /-- The values of options, by long name. -/
  values : List (String × String) := []
  /-- The operand. -/
  operand : Option String := none

/-- Why the reading of a command line ended early. -/
inductive Interruption
  /-- The command line is not in the form. -/
  | misuse
  /-- Help was asked for. -/
  | help
  /-- The version was asked for. -/
  | version
  deriving Repr, DecidableEq

/-- The port that some digits spell, perhaps behind a sign. -/
def port? (text : String) : Option Nat := do
  let (negative, digits) := match text.toList with
    | '-' :: rest => (true, rest)
    | '+' :: rest => (false, rest)
    | rest => (false, rest)
  if digits.isEmpty || !digits.all Char.isDigit then none
  else
    let n ← digits.foldlM
      (fun n c =>
        let n := 10 * n + (c.toNat - 48)
        if n < 65536 then some n else none) 0
    if negative && n != 0 then none else some n

/-- The value is of the kind. -/
def ValueKind.admits (kind : ValueKind) (value : String) : Bool :=
  match kind with
  | .text => true
  | .path => value != ""
  | .port => (port? value).isSome

/-- What a word of a command line is. -/
inductive Word
  /-- An option, perhaps with its value. -/
  | option (form : OptionForm) (value : Option String)
  /-- The flag for JSON. -/
  | json
  /-- The flag for help. -/
  | help
  /-- The flag for the version. -/
  | version
  /-- The mark behind which there are operands only. -/
  | endOfOptions
  /-- Anything else that does not start with a dash. -/
  | operand (text : String)
  /-- Anything else that does. -/
  | unknown

/-- Splits a word at its first equals sign. -/
def splitAtEquals (word : List Char) : List Char × Option (List Char) :=
  let (name, rest) := word.span (· != '=')
  match rest with
  | [] => (name, none)
  | _ :: value => (name, some value)

/-- A word with two dashes in front. -/
def longWord (options : List OptionForm) (hasVersion : Bool) (word : List Char) : Word :=
  let (name, value) := splitAtEquals word
  let name := String.ofList name
  match options.find? (·.long == name) with
  | some form => .option form (value.map String.ofList)
  | none =>
    if value.isSome then .unknown
    else if name = "json" then .json
    else if name = "help" then .help
    else if hasVersion && name = "version" then .version
    else .unknown

/-- A word with one dash in front. -/
def shortWord (options : List OptionForm) (hasVersion : Bool) (letter : Char)
    (rest : List Char) : Word :=
  match options.find? (·.short == some letter) with
  | some form => .option form <| match rest with
    | [] => none
    | '=' :: value => some (String.ofList value)
    | value => some (String.ofList value)
  | none =>
    if letter = 'h' then .help
    else if hasVersion && letter = 'V' then .version
    else .unknown

/-- Tells what a word is, given the options of the command. -/
def Word.ofText (options : List OptionForm) (hasVersion : Bool) (text : String) : Word :=
  match text.toList with
  | ['-', '-'] => .endOfOptions
  | '-' :: '-' :: word => longWord options hasVersion word
  | '-' :: letter :: rest => shortWord options hasVersion letter rest
  | _ => .operand text

/-- The word cannot be the value of an option before it. -/
def startsWithDash (text : String) : Bool :=
  match text.toList with
  | '-' :: _ :: _ => true
  | _ => false

namespace Given

/-- Adds the value of an option. -/
def addValue (given : Given) (form : OptionForm) (value : String) : Except Interruption Given :=
  if (given.values.lookup form.long).isSome || !form.kind.admits value then .error .misuse
  else .ok { given with values := (form.long, value) :: given.values }

/-- Adds an operand. -/
def addOperand (command : CommandForm) (given : Given) (text : String) :
    Except Interruption Given :=
  if command.operand.isNone || given.operand.isSome then .error .misuse
  else .ok { given with operand := some text }

/-- Reads the words behind the name of a command. -/
def read (command : CommandForm) (given : Given) : List String → Except Interruption Given
  | [] => .ok given
  | text :: rest =>
    match Word.ofText command.options false text, rest with
    | .operand text, rest => do
      let given ← addOperand command given text
      read command given rest
    | .json, rest =>
      if given.json then .error .misuse else read command { given with json := true } rest
    | .option form (some value), rest => do
      let given ← addValue given form value
      read command given rest
    | .option form none, value :: rest =>
      if startsWithDash value then .error .misuse
      else do
        let given ← addValue given form value
        read command given rest
    | .option _ none, [] => .error .misuse
    | .endOfOptions, rest => rest.foldlM (addOperand command) given
    | .help, _ => .error .help
    | .version, _ | .unknown, _ => .error .misuse

/-- Everything that has to be given is given. -/
def isComplete (command : CommandForm) (given : Given) : Bool :=
  command.options.all (fun form => !form.isRequired || (given.values.lookup form.long).isSome) &&
    command.operand.all fun form => !form.isRequired || given.operand.isSome

/-- Reads the words behind the name of a command and asks for what has to be given. -/
def parse (command : CommandForm) (words : List String) : Except Interruption Given := do
  let given ← read command {} words
  if given.isComplete command then return given else throw .misuse

end Given

end Command

end SpendScript
