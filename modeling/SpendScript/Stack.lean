import SpendScript.Fault

/-!
# Bounded stacks

A stack is the list of its items, top first, so that the item at depth `d` is the one at index
`d`.  The operations are actions: they change a stack, answer, or fail with a fault, and an
action that fails leaves the stack as it was.  Those that add an item refuse it if the stack is
full or the item is too long, in this order.

A stack is full at a given capacity, and never if there is none.
-/

namespace SpendScript

/-- The items of a stack, top first. -/
abbrev Stack := List Bytes

namespace Stack

/-- A change of a stack that may fail and then still tells the stack it left. -/
abbrev Action := EStateM Fault Stack

/-- The most items a stack holds, if there is a limit. -/
abbrev Capacity := Option Nat

/-- Longest item in bytes. -/
def maxItemSize : Nat := 520

/-- The standard capacity of a stack, and of both stacks of a machine together. -/
def maxItems : Nat := 1000

/-- A stack of this many items has no room for another. -/
def isFull (capacity : Capacity) (count : Nat) : Bool :=
  capacity.any fun most => most ≤ count

/-- What speaks against adding an item, if anything. -/
def objection? (capacity : Capacity) (item : Bytes) (s : Stack) : Option Fault :=
  if isFull capacity s.length then some .stackSize
  else if item.length > maxItemSize then some (.pushSize item.length)
  else none

/-- Adds an item on top. -/
def push (capacity : Capacity) (item : Bytes) : Action Unit := fun s =>
  match objection? capacity item s with
  | some fault => .error fault s
  | none => .ok () (item :: s)

/-- Takes the top item. -/
def pop : Action Bytes
  | [] => .error .badStackOperation []
  | item :: s => .ok item s

/-- Looks at the item at a depth. -/
def peek (depth : Nat) : Action Bytes := fun s =>
  match s[depth]? with
  | some item => .ok item s
  | none => .error .badStackOperation s

/-- Takes the item at a depth. -/
def removeAt (depth : Nat) : Action Bytes := fun s =>
  match s[depth]? with
  | some item => .ok item (s.eraseIdx depth)
  | none => .error .badStackOperation s

/-- Adds an item that comes to lie at a depth; an empty stack takes none. -/
def insertAt (capacity : Capacity) (depth : Nat) (item : Bytes) : Action Unit := fun s =>
  if s.isEmpty || s.length < depth then .error .badStackOperation s
  else match objection? capacity item s with
    | some fault => .error fault s
    | none => .ok () (s.insertIdx depth item)

/-- Exchanges the items at two depths. -/
def swap (a b : Nat) : Action Unit := fun s =>
  match s[a]?, s[b]? with
  | some x, some y => .ok () ((s.set a y).set b x)
  | _, _ => .error .badStackOperation s

/-- Asks for at least `n` items. -/
def require (n : Nat) : Action Unit := fun s =>
  if s.length < n then .error .badStackOperation s else .ok () s

/-- The number of items. -/
def size : Action Nat := fun s => .ok s.length s

end Stack

end SpendScript
