import SpendScript.Command.Directory

/-!
# What commands are given

Texts come from the command line or from a file, where the file wins.  Digests and signature hash
types are read from texts.
-/

namespace SpendScript

namespace Command

/-- Where a source text comes from. -/
structure Origin where
  /-- The text itself. -/
  text : Option String := none
  /-- The name of a file. -/
  file : Option String := none
  deriving Repr, DecidableEq

/-- The source text; it is empty if nothing is given. -/
def Origin.load (files : Files) (origin : Origin) : Except Error String :=
  match origin.file, origin.text with
  | some name, _ => (files.readText name).mapError (.unreadable name)
  | none, some text => .ok text
  | none, none => .ok ""

/-- A text behind any number of times `0x`. -/
def dropMarks : List Char → List Char
  | '0' :: 'x' :: rest => dropMarks rest
  | rest => rest

/-- Reads a digest from digits behind any number of times `0x`; no text stands for the digest of
zeros. -/
def readDigest : Option String → Except Error Digest
  | none => .ok .zero
  | some text =>
    match Hex.decode (dropMarks text.toList) with
    | .error e => .error (.hex e)
    | .ok bytes => match Digest.ofBytes? bytes with
      | some digest => .ok digest
      | none => .error (.digestLength bytes.length)

/-- The byte that hexadecimal digits spell, perhaps behind a plus sign and zeros. -/
def byteOfHex? (digits : List Char) : Option UInt8 :=
  let digits := match digits with
    | '+' :: rest => rest
    | _ => digits
  if digits.isEmpty then none
  else
    let value? := digits.foldlM
      (fun n c => do
        let d ← if c.toNat < 0x80 then Hex.digitValue? (UInt8.ofNat c.toNat) else none
        if 16 * n + d < 256 then some (16 * n + d) else none)
      0
    value?.map UInt8.ofNat

/-- Reads a signature hash type: its word or, behind `0x`, its byte, in letters of either case. -/
def readSigHash (text : String) : Except Error SigHash :=
  let lower := text.toList.map Char.toLower
  let type? := match SigHash.every.find? (fun h => h.word.toList == lower) with
    | some h => some h
    | none => match lower with
      | '0' :: 'x' :: digits => (byteOfHex? digits).bind SigHash.ofByte?
      | _ => none
  match type? with
  | some h => .ok h
  | none => .error (.unknownSigHash text)

end Command

end SpendScript
