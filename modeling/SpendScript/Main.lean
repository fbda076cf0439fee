import SpendScript.Command.Exit

/-!
# The program

Reads the files that the command line names, and then does what the library says.
-/

namespace SpendScript

namespace Command

/-- The names of the files that a task reads. -/
def Task.fileNames : Task → List String
  | .run scriptSig scriptPubKey _ | .debug scriptSig scriptPubKey _ =>
    scriptSig.file.toList ++ scriptPubKey.file.toList
  | .compile source => source.file.toList
  | _ => []

/-- The names of the files that a command line makes the program read. -/
def Invocation.fileNames : Invocation → List String
  | .task what _ => what.fileNames
  | _ => []

end Command

end SpendScript

open SpendScript SpendScript.Command in
/-- Why a file could not be read. -/
def fileError : IO.Error → FileError
  | .inappropriateType _ code _ =>
    if code = 20 then .notDirectory else .isDirectory
  | _ => .missing

open SpendScript SpendScript.Command in
/-- The content of a file, or why it cannot be had. -/
def readFile (name : String) : IO (String × Except FileError Bytes) := do
  try
    let content ← IO.FS.readBinFile name
    return (name, .ok content.toList)
  catch e => return (name, .error (fileError e))

open SpendScript SpendScript.Command in
/-- Runs the program on a command line. -/
def main (words : List String) : IO UInt32 := do
  let read ← (Invocation.ofWords words).fileNames.mapM readFile
  let exit := exitOf (fun name => (read.lookup name).getD (.error .missing)) words
  IO.print exit.out
  IO.eprint exit.err
  return UInt32.ofNat exit.code
