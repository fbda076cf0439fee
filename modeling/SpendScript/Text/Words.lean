/-!
# Words and lines

Blanks separate words; they are the characters with the Unicode property White_Space.

A text is cut into lines at each newline.  A newline at the end of the text adds no line, and a
carriage return right before a newline belongs to the newline.
-/

namespace SpendScript

namespace Text

/-! ### Words -/

/-- The code points with the property White_Space, as ranges. -/
def blankRanges : List (Nat × Nat) :=
  [(0x09, 0x0d), (0x20, 0x20), (0x85, 0x85), (0xa0, 0xa0), (0x1680, 0x1680), (0x2000, 0x200a),
   (0x2028, 0x2029), (0x202f, 0x202f), (0x205f, 0x205f), (0x3000, 0x3000)]

/-- The character separates words. -/
def isBlank (c : Char) : Bool :=
  let n := c.toNat
  if n < 0x80 then n == 0x20 || (0x09 ≤ n && n ≤ 0x0d)
  else blankRanges.any fun (first, last) => first ≤ n && n ≤ last

/-- The words of a text: what stands between blanks. -/
def words (text : List Char) : List (List Char) :=
  let (word, rest) := text.foldr
    (fun c (word, rest) =>
      if isBlank c then ([], if word.isEmpty then rest else word :: rest) else (c :: word, rest))
    ([], [])
  if word.isEmpty then rest else word :: rest

/-- The text without the blanks at its ends. -/
def trim (text : List Char) : List Char :=
  ((text.dropWhile isBlank).reverse.dropWhile isBlank).reverse

/-! ### Lines -/

/-- The pieces between newlines: always one more than there are newlines. -/
def pieces (text : List Char) : List Char × List (List Char) :=
  text.foldr
    (fun c (piece, rest) => if c = '\n' then ([], piece :: rest) else (c :: piece, rest))
    ([], [])

/-- A line without the carriage return at its end. -/
def dropReturn (line : List Char) : List Char :=
  if line.getLast? = some '\r' then line.dropLast else line

/-- The pieces as lines: all but the last were ended by a newline. -/
def ofPieces (first : List Char) (rest : List (List Char)) : List (List Char) :=
  let all := first :: rest
  let last := all.getLast?.getD []
  all.dropLast.map dropReturn ++ (if last.isEmpty then [] else [last])

/-- The lines of a text. -/
def lines (text : List Char) : List (List Char) :=
  let (first, rest) := pieces text
  ofPieces first rest

/-- Puts lines together with a newline between any two. -/
def unlines (ls : List (List Char)) : List Char :=
  ['\n'].intercalate ls

end Text

end SpendScript
