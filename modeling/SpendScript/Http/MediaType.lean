import SpendScript.Bytes.Basic

/-!
# Media types

A media type is a type, a slash, a subtype and perhaps parameters.  What stands behind the last
plus sign of the subtype is its suffix.  A parameter is a name, an equals sign and a value, which is
a token or in quotes; a semicolon stands between parameters.
-/

namespace SpendScript

namespace Http

/-- A media type without its parameters. -/
structure MediaType where
  /-- The type. -/
  type : String
  /-- The subtype without its suffix. -/
  subtype : String
  /-- The suffix of the subtype. -/
  suffix : Option String
  deriving Repr, DecidableEq

namespace MediaType

/-- The characters of tokens besides letters and digits. -/
def tokenMarks : List Char :=
  ['!', '#', '$', '%', '&', '\'', '*', '+', '-', '.', '^', '_', '\x60', '|', '~']

/-- The character may stand in a token. -/
def isToken (c : Char) : Bool :=
  c.isAlphanum || tokenMarks.contains c

/-- The character may stand between quotes. -/
def isQuotable (c : Char) : Bool :=
  0x1f < c.toNat && c.toNat != 0x7f

/-- The text of a header field that can be read at all. -/
def isVisible (c : Char) : Bool :=
  c = '\t' || (0x20 ≤ c.toNat && c.toNat < 0x7f)

/-- Splits the subtype at its last plus sign, unless that is in front. -/
def splitSuffix (subtype : List Char) : List Char × Option (List Char) :=
  let (suffix, rest) := subtype.reverse.span (· != '+')
  match rest with
  | '+' :: c :: rest => ((c :: rest).reverse, some suffix.reverse)
  | _ => (subtype, none)

/-- Where the reading of parameters is. -/
inductive Place
  /-- In front of a parameter. -/
  | start
  /-- In its name. -/
  | name
  /-- Behind the equals sign. -/
  | valueStart
  /-- In a value without quotes. -/
  | value
  /-- Behind the first quote of a value. -/
  | quoteStart
  /-- Further inside a value in quotes. -/
  | quote
  /-- Behind a value in quotes. -/
  | quoted

/-- The place behind one more character. -/
def Place.next (place : Place) (c : Char) : Option Place :=
  match place with
  | .start => if c = ' ' then some .start else if isToken c then some .name else none
  | .name => if c = '=' then some .valueStart else if isToken c then some .name else none
  | .valueStart =>
    if c = '"' then some .quoteStart else if isToken c then some .value else none
  | .value => if c = ';' then some .start else if isToken c then some .value else none
  | .quoteStart => if isQuotable c then some .quote else none
  | .quote => if c = '"' then some .quoted else if isQuotable c then some .quote else none
  | .quoted => if c = ';' then some .start else if c = ' ' then some .quoted else none

/-- The parameters may end here. -/
def Place.isEnd : Place → Bool
  | .start | .valueStart | .value | .quoted => true
  | .name | .quoteStart | .quote => false

/-- The text holds parameters. -/
def areParameters (text : List Char) : Bool :=
  (text.foldlM Place.next .start).any Place.isEnd

/-- Reads a media type; letters are taken as lowercase. -/
def read? (text : String) : Option MediaType :=
  let chars := text.toList
  let lower (cs : List Char) : String := String.ofList (cs.map Char.toLower)
  let (type, rest) := chars.span isToken
  match type, rest with
  | _ :: _, '/' :: rest =>
    let (subtype, rest) := rest.span isToken
    let isWellFormed := match subtype, rest with
      | [], _ :: _ => false
      | _, [] => true
      | _, c :: parameters => c = ';' && areParameters parameters
    if chars.all isVisible && isWellFormed then
      let (subtype, suffix) := splitSuffix subtype
      some ⟨lower type, lower subtype, suffix.map lower⟩
    else none
  | _, _ => none

/-- The media type is that of JSON or of something written in it. -/
def isJson (m : MediaType) : Bool :=
  m.type == "application" && (m.subtype == "json" || m.suffix == some "json")

end MediaType

end Http

end SpendScript
