import SpendScript.Command.Invocation

/-!
# Explanations of the commands
-/

namespace SpendScript

namespace Command

namespace Help

/-- The name of the program. -/
def program : String := "scriptvm"

/-- The version of the program. -/
def version : String := "0.1.0"

/-- What the program is. -/
def summary : String := "A deterministic Bitcoin-style script VM and debugger"

/-- Two columns, of which the first is as wide as its widest entry. -/
def columns (rows : List (String × String)) : String :=
  let width := rows.foldl (fun w row => max w row.1.length) 0
  String.join (rows.map fun (left, right) =>
    "  " ++ left ++ String.ofList (List.replicate (width - left.length) ' ') ++ "  " ++ right ++
      "\n")

/-- The name of the value of an option. -/
def valueName (form : OptionForm) : String :=
  String.ofList (form.long.toList.map fun c => if c = '-' then '_' else c.toUpper)

/-- The row of an option. -/
def optionRow (form : OptionForm) : String × String :=
  let short := match form.short with
    | some letter => "-" ++ String.singleton letter ++ ", "
    | none => "    "
  let environment := match form.environment with
    | some name => s!" [env: {name}=]"
    | none => ""
  let default := match form.default with
    | some value => s!" [default: {value}]"
    | none => ""
  (short ++ "--" ++ form.long ++ " <" ++ valueName form ++ ">",
    form.summary ++ environment ++ default)

/-- The row of the flag for JSON. -/
def jsonRow : String × String :=
  ("    --json", "Print machine-readable JSON instead of text")

/-- The row of the flag for help. -/
def helpRow : String × String :=
  ("-h, --help", "Print help")

/-- The word by which rows are ordered that came at the same place. -/
def sortWord (form : OptionForm) : String :=
  match form.short with
  | some letter => String.singleton letter
  | none => form.long

/-- The rows of the options of a command: the flag for JSON shares the first place. -/
def optionRows (command : CommandForm) : List (String × String) :=
  let rows := match command.options with
    | [] => [jsonRow]
    | first :: rest =>
      (if sortWord first < "json" then [optionRow first, jsonRow]
       else [jsonRow, optionRow first]) ++ rest.map optionRow
  rows ++ [helpRow]

/-- An operand in brackets that tell whether it has to be given. -/
def operandWord (form : OperandForm) : String :=
  if form.isRequired then "<" ++ form.name ++ ">" else "[" ++ form.name ++ "]"

/-- The explanation of a command. -/
def onCommand (command : CommandForm) : String :=
  let required := (command.options.filter (·.isRequired)).map fun form =>
    " --" ++ form.long ++ " <" ++ valueName form ++ ">"
  let operand := match command.operand with
    | some form => " " ++ operandWord form
    | none => ""
  let operands := match command.operand with
    | some form => "\nArguments:\n" ++ columns [(operandWord form, form.summary)]
    | none => ""
  command.summary ++ "\n\nUsage: " ++ program ++ " " ++ command.name ++ " [OPTIONS]" ++
    String.join required ++ operand ++ "\n" ++ operands ++ "\nOptions:\n" ++
    columns (optionRows command)

/-- What the command is for that explains. -/
def helpSummary : String :=
  "Print this message or the help of the given subcommand(s)"

/-- The explanation of the program. -/
def onProgram : String :=
  summary ++ "\n\nUsage: " ++ program ++ " [OPTIONS] <COMMAND>\n\nCommands:\n" ++
    columns (forms.map (fun form => (form.name, form.summary)) ++ [("help", helpSummary)]) ++
    "\nOptions:\n" ++ columns [jsonRow, helpRow, ("-V, --version", "Print version")]

/-- The explanation of the command that explains. -/
def onHelp : String :=
  helpSummary ++ "\n\nUsage: " ++ program ++ " help [COMMAND]...\n\nArguments:\n" ++
    columns [("[COMMAND]...", "Print help for the subcommand(s)")]

end Help

end Command

end SpendScript
