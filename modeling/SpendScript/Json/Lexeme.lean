import SpendScript.Bytes.Hex

/-!
# Parts of JSON text

JSON text is a byte string.  Each function here takes one part from its start and gives the rest:
blanks, words, numbers and strings.  Strings come in two degrees of care: one that is read has to
be valid text, and one that is passed over only has to end.
-/

namespace SpendScript

namespace Json

/-- The byte is a blank between parts. -/
def isBlank (b : UInt8) : Bool :=
  b == 0x20 || b == 0x0a || b == 0x0d || b == 0x09

/-- The text without the blanks in front. -/
def dropBlanks (text : Bytes) : Bytes :=
  text.dropWhile isBlank

/-- The byte is a decimal digit. -/
def isDigit (b : UInt8) : Bool :=
  0x30 ≤ b && b ≤ 0x39

/-- Takes a word. -/
def takeWord (word text : Bytes) : Option Bytes :=
  if word.isPrefixOf text then some (text.drop word.length) else none

/-! ### Numbers -/

/-- The parts of a number, where large exponents may be replaced by smaller ones that are still
beyond every bound. -/
structure Number where
  /-- The digits in front of the point. -/
  whole : Bytes
  /-- The digits behind the point. -/
  fraction : Bytes
  /-- The exponent. -/
  exponent : Int

/-- Takes at least one digit. -/
def takeDigits (text : Bytes) : Option (Bytes × Bytes) :=
  match text.span isDigit with
  | ([], _) => none
  | found => some found

/-- Takes the digits in front of the point: no zero is in front of another digit. -/
def takeWhole : Bytes → Option (Bytes × Bytes)
  | 0x30 :: rest => match rest with
    | b :: _ => if isDigit b then none else some ([0x30], rest)
    | [] => some ([0x30], [])
  | text => takeDigits text

/-- Takes the digits behind the point, if there is one. -/
def takeFraction : Bytes → Option (Bytes × Bytes)
  | 0x2e :: rest => takeDigits rest
  | text => some ([], text)

/-- The number that the digits of an exponent spell, but never more than a bound. -/
def exponentSize (digits : Bytes) : Nat :=
  digits.foldl (fun n b => min (10 * n + (b.toNat - 0x30)) 1000000000) 0

/-- Takes the exponent, if there is one. -/
def takeExponent : Bytes → Option (Int × Bytes)
  | first :: rest =>
    if first = 0x65 ∨ first = 0x45 then
      match rest with
      | 0x2d :: rest =>
        (takeDigits rest).map fun (digits, rest) => (-(exponentSize digits : Int), rest)
      | 0x2b :: rest =>
        (takeDigits rest).map fun (digits, rest) => ((exponentSize digits : Int), rest)
      | rest => (takeDigits rest).map fun (digits, rest) => ((exponentSize digits : Int), rest)
    else some (0, first :: rest)
  | [] => some (0, [])

/-- Takes a number; its sign is not kept. -/
def takeNumber (text : Bytes) : Option (Number × Bytes) := do
  let text := match text with
    | 0x2d :: rest => rest
    | _ => text
  let (whole, text) ← takeWhole text
  let (fraction, text) ← takeFraction text
  let (exponent, text) ← takeExponent text
  return (⟨whole, fraction, exponent⟩, text)

/-! ### Strings -/

/-- The character that a letter behind a backslash stands for. -/
def escaped? (letter : UInt8) : Option UInt8 :=
  if letter = 0x22 ∨ letter = 0x5c ∨ letter = 0x2f then some letter
  else if letter = 0x62 then some 0x08
  else if letter = 0x66 then some 0x0c
  else if letter = 0x6e then some 0x0a
  else if letter = 0x72 then some 0x0d
  else if letter = 0x74 then some 0x09
  else none

/-- The number that four digits spell. -/
def unit? (a b c d : UInt8) : Option Nat := do
  let a ← Hex.digitValue? a
  let b ← Hex.digitValue? b
  let c ← Hex.digitValue? c
  let d ← Hex.digitValue? d
  return 4096 * a + 256 * b + 16 * c + d

/-- The number stands for the first half of a character. -/
def isHighHalf (n : Nat) : Bool := 0xd800 ≤ n && n < 0xdc00

/-- The number stands for the second half of a character. -/
def isLowHalf (n : Nat) : Bool := 0xdc00 ≤ n && n < 0xe000

/-- The bytes of the character with this number, last first. -/
def reversedBytes (n : Nat) : Bytes :=
  (String.utf8EncodeChar (Char.ofNat n)).reverse

/-- Reads a string behind its first quote; `read` holds the bytes so far, last first. -/
def takeStringBytes (read : Bytes) : Bytes → Option (Bytes × Bytes)
  | 0x22 :: rest => some (read.reverse, rest)
  | 0x5c :: 0x75 :: a :: b :: c :: d :: rest =>
    match unit? a b c d with
    | none => none
    | some n =>
      if isLowHalf n then none
      else if isHighHalf n then
        match rest with
        | 0x5c :: 0x75 :: a :: b :: c :: d :: rest =>
          match unit? a b c d with
          | none => none
          | some m =>
            if isLowHalf m then
              let n := 0x10000 + 0x400 * (n - 0xd800) + (m - 0xdc00)
              takeStringBytes (reversedBytes n ++ read) rest
            else none
        | _ => none
      else takeStringBytes (reversedBytes n ++ read) rest
  | 0x5c :: letter :: rest =>
    match escaped? letter with
    | some b => takeStringBytes (b :: read) rest
    | none => none
  | b :: rest => if b < 0x20 then none else takeStringBytes (b :: read) rest
  | [] => none

/-- Reads a string behind its first quote; it has to be valid text. -/
def takeString (text : Bytes) : Option (String × Bytes) := do
  let (bytes, rest) ← takeStringBytes [] text
  let s ← String.fromUTF8? (ByteArray.mk bytes.toArray)
  return (s, rest)

/-- Passes over a string behind its first quote. -/
def skipString : Bytes → Option Bytes
  | 0x22 :: rest => some rest
  | 0x5c :: 0x75 :: a :: b :: c :: d :: rest =>
    if (unit? a b c d).isSome then skipString rest else none
  | 0x5c :: letter :: rest => if (escaped? letter).isSome then skipString rest else none
  | b :: rest => if b < 0x20 then none else skipString rest
  | [] => none

/-! ### Words of the language -/

/-- Takes one of the words that are values. -/
def takeConstant (text : Bytes) : Option Bytes :=
  match text with
  | 0x6e :: _ => takeWord [0x6e, 0x75, 0x6c, 0x6c] text
  | 0x74 :: _ => takeWord [0x74, 0x72, 0x75, 0x65] text
  | 0x66 :: _ => takeWord [0x66, 0x61, 0x6c, 0x73, 0x65] text
  | _ => none

end Json

end SpendScript
