import SpendScript.Bytes.Hex

/-!
# JSON values and their layout

The values that the program puts out as JSON, and the layout in which the commands print them:
one entry to a line, two blanks deeper than what holds it.
-/

namespace SpendScript

namespace Json

/-- A value. -/
inductive Value
  | bool (b : Bool)
  | number (n : Nat)
  | string (s : String)
  | array (entries : List Value)
  | object (entries : List (String × Value))
  deriving Repr

/-- A character inside a string. -/
def escape (c : Char) : String :=
  if c = '"' then "\\\""
  else if c = '\\' then "\\\\"
  else if c = '\x08' then "\\b"
  else if c = '\x0c' then "\\f"
  else if c = '\n' then "\\n"
  else if c = '\r' then "\\r"
  else if c = '\t' then "\\t"
  else if c.toNat < 0x20 then "\\u" ++ String.ofList (Hex.ofNatPadded 4 c.toNat)
  else String.singleton c

/-- Writes a string behind `out`. -/
def writeString (out s : String) : String :=
  (s.foldl (fun out c => out ++ escape c) (out.push '"')).push '"'

/-- Starts a new line at a depth. -/
def newLine (out : String) (depth : Nat) : String :=
  out.push '\n' ++ String.ofList (List.replicate (2 * depth) ' ')

mutual

/-- Writes a value behind `out`. -/
def write (out : String) (depth : Nat) : Value → String
  | .bool b => out ++ (if b then "true" else "false")
  | .number n => out ++ toString n
  | .string s => writeString out s
  | .array [] => out ++ "[]"
  | .array (entry :: entries) =>
    let out := write (newLine (out.push '[') (depth + 1)) (depth + 1) entry
    (newLine (writeEntries out (depth + 1) entries) depth).push ']'
  | .object [] => out ++ "\x7b\x7d"
  | .object ((name, value) :: entries) =>
    let out := writeString (newLine (out.push '\x7b') (depth + 1)) name ++ ": "
    let out := write out (depth + 1) value
    (newLine (writeFields out (depth + 1) entries) depth).push '\x7d'

/-- Writes the further entries of an array. -/
def writeEntries (out : String) (depth : Nat) : List Value → String
  | [] => out
  | entry :: entries =>
    writeEntries (write (newLine (out.push ',') depth) depth entry) depth entries

/-- Writes the further entries of an object. -/
def writeFields (out : String) (depth : Nat) : List (String × Value) → String
  | [] => out
  | (name, value) :: entries =>
    let out := writeString (newLine (out.push ',') depth) name ++ ": "
    writeFields (write out depth value) depth entries

end

/-- A value as a text. -/
def layout (value : Value) : String :=
  write "" 0 value

end Json

end SpendScript
