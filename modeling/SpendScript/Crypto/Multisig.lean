import SpendScript.Bytes.Basic

/-!
# Several signatures, several keys

A list of signatures is accepted for a list of keys if each signature belongs to a key of its own
and both come in the same order.  The search has a cursor in either list.  It tries the keys one
after another, each once, against the first signature that has no key yet, and ends as soon as
fewer keys than signatures are left.
-/

namespace SpendScript

namespace Multisig

/-- How far a search has come. -/
structure Cursors where
  /-- The place of the next key to be tried. -/
  key : Nat := 0
  /-- The place of the first signature that has no key yet. -/
  signature : Nat := 0
  deriving Repr, DecidableEq

/-- How many of `total` places a cursor has not passed yet, unless it has run past the end. -/
def left? (total cursor : Nat) : Option Nat :=
  if cursor ≤ total then some (total - cursor) else none

/-- Passes a key, and the signature if it belongs to the key. -/
def Cursors.pass (c : Cursors) (belongs : Bool) : Cursors where
  key := c.key + 1
  signature := if belongs then c.signature + 1 else c.signature

variable (signedBy : (publicKey signature : Bytes) → Bool) (publicKeys signatures : List Bytes)

/-- Gives each signature the earliest key it can have, from the cursors on; `signedBy` tells which
signature belongs to which key.  There would be no answer if a cursor ran past the end of its
list. -/
def search (c : Cursors) : Option Bool :=
  if h : c.signature < signatures.length ∧ c.key < publicKeys.length then
    let c' := c.pass (signedBy (publicKeys.get ⟨c.key, h.2⟩) (signatures.get ⟨c.signature, h.1⟩))
    match left? publicKeys.length c'.key, left? signatures.length c'.signature with
    | some keysLeft, some signaturesLeft =>
      if keysLeft < signaturesLeft then some false else search c'
    | _, _ => none
  else some (c.signature == signatures.length)
termination_by publicKeys.length - c.key
decreasing_by simp only [Cursors.pass]; omega

/-- The signatures belong to some of the keys, in order. -/
def accepts : Bool :=
  (search signedBy publicKeys signatures {}).getD false

end Multisig

end SpendScript
