import SpendScript.Source.Token
import SpendScript.Text.Words

/-!
# From source text to code

Two slashes start a comment, which ends with the line.  Source text without its comments is a list
of words; its code is the code of each of them in turn.  The first word that is no token is
reported.
-/

namespace SpendScript

namespace Source

/-- A line up to its first two slashes in a row. -/
def cutComment (line : List Char) : List Char :=
  (line.foldr
    (fun c (kept, slashNext) =>
      if c = '/' ∧ slashNext then ([], true) else (c :: kept, c = '/'))
    ([], false)).1

/-- A text without its comments. -/
def stripChars (text : List Char) : List Char :=
  Text.unlines ((Text.lines text).map cutComment)

/-- A text without its comments. -/
def stripComments (text : String) : String :=
  String.ofList (stripChars text.toList)

/-- The words of a source text. -/
def words (text : List Char) : List (List Char) :=
  Text.words (stripChars text)

/-- The code of some words, after the code in `done`, which holds its parts last first. -/
def assembleWords (done : List Bytes) : List (List Char) → Except SourceError Bytes
  | [] => .ok done.reverse.flatten
  | word :: rest =>
    match Token.read word with
    | .ok token => assembleWords (token.bytes :: done) rest
    | .error e => .error e

/-- The code of a source text. -/
def assembleChars (text : List Char) : Except SourceError Bytes :=
  assembleWords [] (words text)

/-- The code of a source text. -/
def assemble (text : String) : Except SourceError Bytes :=
  assembleChars text.toList

end Source

end SpendScript
