import SpendScript.Json.Lexeme

/-!
# Passing over a value

A value that nobody asked for only has to be well formed.  What is still open is kept as a list, so
that values may be nested to any depth.
-/

namespace SpendScript

namespace Json

/-- What is open around a value. -/
inductive Frame
  | array
  | object

/-- Passes over a value that holds no others. -/
def skipScalar : Bytes → Option Bytes
  | 0x22 :: rest => skipString rest
  | text => match takeConstant text with
    | some rest => some rest
    | none => (takeNumber text).map (·.2)

/-- Passes over the name of an entry and the colon behind it. -/
def skipName (text : Bytes) : Option Bytes :=
  match dropBlanks text with
  | 0x22 :: rest => match skipString rest with
    | some rest => match dropBlanks rest with
      | 0x3a :: rest => some rest
      | _ => none
    | none => none
  | _ => none

/-- Closes what ends behind a value, and gives what is still open; if there is any, another value
comes next. -/
def closeFrames : List Frame → Bytes → Option (List Frame × Bytes)
  | [], text => some ([], text)
  | .array :: outer, text => match dropBlanks text with
    | 0x5d :: rest => closeFrames outer rest
    | 0x2c :: rest => some (.array :: outer, rest)
    | _ => none
  | .object :: outer, text => match dropBlanks text with
    | 0x7d :: rest => closeFrames outer rest
    | 0x2c :: rest => (skipName rest).map fun rest => (.object :: outer, rest)
    | _ => none

/-- What the start of a value leaves to do. -/
inductive Opened
  /-- The value is over. -/
  | complete (rest : Bytes)
  /-- The first value inside it comes next. -/
  | inside (frame : Frame) (rest : Bytes)

/-- Passes over the start of a value. -/
def openValue (text : Bytes) : Option Opened :=
  match dropBlanks text with
  | 0x5b :: rest => match dropBlanks rest with
    | 0x5d :: rest => some (.complete rest)
    | rest => some (.inside .array rest)
  | 0x7b :: rest => match dropBlanks rest with
    | 0x7d :: rest => some (.complete rest)
    | rest => (skipName rest).map (.inside .object)
  | text => (skipScalar text).map .complete

/-- Passes over a value and everything that is open around it, in at most `fuel` steps.  Every step
takes at least one byte. -/
def skipFrom : (fuel : Nat) → List Frame → Bytes → Option Bytes
  | 0, _, _ => none
  | fuel + 1, frames, text =>
    match openValue text with
    | none => none
    | some (.inside frame rest) => skipFrom fuel (frame :: frames) rest
    | some (.complete rest) =>
      match closeFrames frames rest with
      | none => none
      | some ([], rest) => some rest
      | some (frames, rest) => skipFrom fuel frames rest

end Json

end SpendScript
