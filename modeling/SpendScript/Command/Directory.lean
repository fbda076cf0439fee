import SpendScript.Command.Error

/-!
# Files in a working directory

What a command gets for the name of a file, and how a name is understood where there is nothing but
a working directory with plain files in it: step by step along its parts, where nothing lies below
a file.
-/

namespace SpendScript

namespace Command

/-- The content of each file, or why it cannot be had. -/
abbrev Files := String → Except FileError Bytes

/-- The content of a file that holds text. -/
def Files.readText (files : Files) (name : String) : Except FileError String := do
  match String.fromUTF8? (ByteArray.mk (← files name).toArray) with
  | some text => return text
  | none => throw .notText

/-- The plain files of a working directory, by name. -/
abbrev Directory := List (String × Bytes)

namespace Directory

/-- What the parts of a name have led to so far. -/
inductive Place
  /-- The working directory. -/
  | here
  /-- Another directory, of which nothing is known. -/
  | elsewhere
  /-- A file with this content. -/
  | file (content : Bytes)

/-- The place that one more part of a name leads to. -/
def Place.enter (files : Directory) (place : Place) (part : String) : Except FileError Place :=
  match place with
  | .file _ => .error .notDirectory
  | .elsewhere =>
    if part = "." ∨ part = ".." ∨ part = "" then .ok .elsewhere else .error .missing
  | .here =>
    if part = "." ∨ part = "" then .ok .here
    else if part = ".." then .ok .elsewhere
    else match files.lookup part with
      | some content => .ok (.file content)
      | none => .error .missing

/-- What is found in a working directory. -/
def toFiles (files : Directory) : Files := fun name =>
  if name = "" then .error .missing
  else
    let start := if name.startsWith "/" then Place.elsewhere else .here
    match (name.splitOn "/").foldlM (Place.enter files) start with
    | .ok (.file content) => .ok content
    | .ok _ => .error .isDirectory
    | .error e => .error e

end Directory

end Command

end SpendScript
