import SpendScript.Source.Assembly

/-!
# Compilers

A compiler compiles one text after another.  It puts the code of a text together in a buffer, which
it empties before each text; a text that does not compile leaves the code of its first words there.
-/

namespace SpendScript

/-- What a compiler holds. -/
structure Compiler where
  /-- The code of the words so far, in parts, the last one first. -/
  buffer : List Bytes := []
  deriving Repr, DecidableEq

namespace Compiler

/-- A use of a compiler that may fail and then still tells what it left in the buffer. -/
abbrev Action := EStateM SourceError Compiler

/-- Empties the buffer. -/
def clear : Action Unit := fun _ => .ok () {}

/-- Adds the code of a word. -/
def add (word : List Char) : Action Unit := fun c =>
  match Token.read word with
  | .ok token => .ok () { buffer := token.bytes :: c.buffer }
  | .error e => .error e c

/-- Adds the code of one word after another. -/
def addAll : List (List Char) → Action Unit
  | [] => pure ()
  | word :: rest => do
    add word
    addAll rest

/-- The code in the buffer. -/
def code : Action Bytes := fun c => .ok c.buffer.reverse.flatten c

/-- Compiles a text. -/
def compile (text : String) : Action Bytes := do
  clear
  addAll (Source.words text.toList)
  code

/-- What came of using a compiler, without what is left in the buffer. -/
def answer {α : Type} : EStateM.Result SourceError Compiler α → Except SourceError α
  | .ok a _ => .ok a
  | .error e _ => .error e

/-- Compiles one text after another and gives the result of each. -/
def session (c : Compiler) : List String → List (Except SourceError Bytes)
  | [] => []
  | text :: rest =>
    match compile text c with
    | .ok code c => .ok code :: session c rest
    | .error e c => .error e :: session c rest

end Compiler

end SpendScript
