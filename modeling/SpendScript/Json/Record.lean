import SpendScript.Json.Magnitude
import SpendScript.Json.Skip

/-!
# Reading records

A record is a few named texts.  It is written as an object, where entries with other names are
passed over, or as an array of the texts in the order of their names.  Reading goes from left to
right and ends with the first problem: the text is not well formed, or it is but does not have the
shape of the record.
-/

namespace SpendScript

namespace Json

/-- A text in a record. -/
structure FieldForm where
  /-- Its names, of which the first is the usual one. -/
  names : List String
  /-- The record is not complete without it. -/
  isRequired : Bool
  deriving Repr

/-- Why a record could not be read. -/
inductive RecordError
  /-- The text is not well formed. -/
  | malformed
  /-- The text is well formed as far as it was read, but it is not such a record. -/
  | wrongShape
  deriving Repr, DecidableEq

/-- The texts of a record with their usual names. -/
abbrev Record := List (String × String)

namespace FieldForm

/-- The usual name. -/
def name (form : FieldForm) : String :=
  form.names.headD ""

/-- The record has the text. -/
def isIn (form : FieldForm) (record : Record) : Bool :=
  (record.lookup form.name).isSome

end FieldForm

namespace Record

/-- The text with this name, or the empty text. -/
def get (record : Record) (name : String) : String :=
  (record.lookup name).getD ""

/-- The problem with a value in place of something else: it is read as far as needed to tell what
it is. -/
def mismatch (text : Bytes) : RecordError :=
  match text with
  | 0x5b :: _ | 0x7b :: _ => .wrongShape
  | 0x22 :: rest => if (takeString rest).isSome then .wrongShape else .malformed
  | _ =>
    if (takeConstant text).isSome then .wrongShape
    else match takeNumber text with
      | some (n, _) => if n.isFinite then .wrongShape else .malformed
      | none => .malformed

/-- Reads a text in quotes. -/
def readText (text : Bytes) : Except RecordError (String × Bytes) :=
  match dropBlanks text with
  | 0x22 :: rest => match takeString rest with
    | some found => .ok found
    | none => .error .malformed
  | rest => .error (mismatch rest)

/-! ### Arrays -/

/-- Finds the next entry of an array, if there is one. -/
def nextEntry (isFirst : Bool) (text : Bytes) : Except RecordError (Option Bytes) :=
  match dropBlanks text with
  | 0x5d :: _ => .ok none
  | 0x2c :: rest =>
    if isFirst then .ok (some (0x2c :: rest))
    else match dropBlanks rest with
      | 0x5d :: _ | [] => .error .malformed
      | rest => .ok (some rest)
  | [] => .error .malformed
  | rest => if isFirst then .ok (some rest) else .error .malformed

/-- Reads the texts of an array. -/
def readEntries (isFirst : Bool) (record : Record) :
    List FieldForm → Bytes → Except RecordError (Record × Bytes)
  | [], text => .ok (record, text)
  | form :: forms, text => do
    match ← nextEntry isFirst text with
    | none =>
      if form.isRequired then throw .wrongShape
      else readEntries isFirst record forms text
    | some text =>
      let (value, text) ← readText text
      readEntries false ((form.name, value) :: record) forms text

/-- Reads an array behind its bracket. -/
def readArray (forms : List FieldForm) (text : Bytes) : Except RecordError (Record × Bytes) := do
  let (record, text) ← readEntries true [] forms text
  match dropBlanks text with
  | 0x5d :: rest => return (record, rest)
  | _ => throw .malformed

/-! ### Objects -/

/-- Finds the next name of an object, if there is one. -/
def nextName (isFirst : Bool) (text : Bytes) : Except RecordError (Option String × Bytes) :=
  let text := dropBlanks text
  let name := match isFirst, text with
    | false, 0x2c :: rest => some (dropBlanks rest)
    | false, _ => none
    | true, text => some text
  match text, name with
  | 0x7d :: rest, _ => .ok (none, rest)
  | _, some (0x22 :: rest) => match takeString rest with
    | some (name, rest) => .ok (some name, rest)
    | none => .error .malformed
  | _, _ => .error .malformed

/-- Passes over a colon. -/
def skipColon (text : Bytes) : Except RecordError Bytes :=
  match dropBlanks text with
  | 0x3a :: rest => .ok rest
  | _ => .error .malformed

/-- Reads one entry behind its name; `fuel` is enough to pass over a value. -/
def readField (forms : List FieldForm) (fuel : Nat) (record : Record) (name : String)
    (text : Bytes) : Except RecordError (Record × Bytes) := do
  match forms.find? fun form => form.names.contains name with
  | some form =>
    if form.isIn record then throw .wrongShape
    let (value, text) ← readText (← skipColon text)
    return ((form.name, value) :: record, text)
  | none =>
    match skipFrom fuel [] (← skipColon text) with
    | some text => return (record, text)
    | none => throw .malformed

/-- Reads the entries of an object and its closing brace, in at most `fuel` steps. -/
def readFields (forms : List FieldForm) :
    (fuel : Nat) → (isFirst : Bool) → Record → Bytes → Except RecordError (Record × Bytes)
  | 0, _, _, _ => .error .malformed
  | fuel + 1, isFirst, record, text =>
    match nextName isFirst text with
    | .error e => .error e
    | .ok (none, text) => .ok (record, text)
    | .ok (some name, text) =>
      match readField forms fuel record name text with
      | .error e => .error e
      | .ok (record, text) => readFields forms fuel false record text

/-- Reads an object behind its brace.  Every entry takes at least one byte, so that there is always
at least one step left for each byte. -/
def readObject (forms : List FieldForm) (text : Bytes) : Except RecordError (Record × Bytes) := do
  let (record, text) ← readFields forms (text.length + 1) true [] text
  if forms.all fun form => !form.isRequired || form.isIn record then return (record, text)
  else throw .wrongShape

/-! ### Records -/

/-- Reads a record, with nothing but blanks around it. -/
def read (forms : List FieldForm) (text : Bytes) : Except RecordError Record := do
  let (record, rest) ← match dropBlanks text with
    | 0x5b :: rest => readArray forms rest
    | 0x7b :: rest => readObject forms rest
    | rest => throw (mismatch rest)
  if (dropBlanks rest).isEmpty then return record else throw .malformed

end Record

end Json

end SpendScript
