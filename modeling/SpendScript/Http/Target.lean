/-!
# Addresses and request targets

The service listens at an address.  A request names what it is about in one of several forms: a path
stands by itself or behind a scheme and an authority, and a query and a fragment may follow it.
Other forms, such as a star or an authority alone, name no path.
-/

namespace SpendScript

namespace Http

/-- A host and a port. -/
structure Address where
  /-- The host. -/
  host : String := "0.0.0.0"
  /-- The port. -/
  port : Nat := 3000
  deriving Repr, DecidableEq

/-- The address as one word. -/
def Address.text (a : Address) : String :=
  s!"{a.host}:{a.port}"

namespace Target

/-- The character may stand in a scheme. -/
def isSchemeChar (c : Char) : Bool :=
  c.isAlphanum || c = '+' || c = '-' || c = '.'

/-- The character ends a path. -/
def endsPath (c : Char) : Bool :=
  c = '?' || c = '#'

/-- The character ends an authority. -/
def endsAuthority (c : Char) : Bool :=
  c = '/' || endsPath c

/-- What stands behind the scheme and the authority, if there are any. -/
def afterAuthority? (target : List Char) : Option (List Char) :=
  match target.dropWhile isSchemeChar with
  | ':' :: '/' :: '/' :: rest => some (rest.dropWhile fun c => !endsAuthority c)
  | _ => none

/-- The path of a target, without a query or a fragment.  Behind an authority, an empty path is the
same as a slash. -/
def path? (target : String) : Option String :=
  let path (chars : List Char) : List Char := chars.takeWhile fun c => !endsPath c
  match target.toList with
  | '/' :: rest => some (String.ofList (path ('/' :: rest)))
  | chars => (afterAuthority? chars).map fun rest =>
    match path rest with
    | [] => "/"
    | found => String.ofList found

end Target

end Http

end SpendScript
