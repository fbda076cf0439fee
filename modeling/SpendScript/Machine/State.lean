import SpendScript.Crypto.Primitives
import SpendScript.Number
import SpendScript.Stack

/-!
# Machines and their states

A machine is what stays fixed during a run: the code, the digest that signatures are checked
against, the primitives, and the rules.  A state is what changes.  An effect changes a state and
may fail; the state in which it failed is kept, so that operands which were already taken are
seen to be gone.
-/

namespace SpendScript

/-- Longest code in bytes. -/
def maxCodeSize : Nat := 10000

/-- Most operations that a run may meet. -/
def maxOperations : Nat := 201

/-- The rules that a machine can be asked to vary. -/
structure Rules where
  /-- The capacity of each stack by itself. -/
  capacity : Stack.Capacity
  /-- What turning a conditional makes of its frame, given the frames around it. -/
  turn : (outer : List Bool) → (frame : Bool) → Bool

/-- The standard rules: a stack holds a thousand items, and turning a conditional executes the
other branch if everything around it is executed. -/
def Rules.standard : Rules where
  capacity := some Stack.maxItems
  turn outer frame := outer.all id && !frame

/-- What stays fixed during a run. -/
structure Machine where
  /-- The code. -/
  code : Bytes
  /-- The digest that signatures are checked against. -/
  digest : Digest
  /-- The cryptographic functions. -/
  primitives : Primitives
  /-- The rules. -/
  rules : Rules
  /-- The code is not too long. -/
  length_code : code.length ≤ maxCodeSize

/-- Loads some code into a machine with the standard rules, unless it is too long. -/
def Machine.load (primitives : Primitives) (digest : Digest) (code : Bytes) :
    Except Fault Machine :=
  if h : code.length ≤ maxCodeSize then .ok ⟨code, digest, primitives, .standard, h⟩
  else .error (.codeSize code.length)

/-- Whether a machine runs, and how it ended if it does not. -/
inductive Status
  | running
  | succeeded
  | failed (fault : Fault)
  deriving Repr, DecidableEq

/-- What changes during a run. -/
structure State where
  /-- The offset of the next instruction. -/
  pc : Nat := 0
  /-- The main stack. -/
  main : Stack := []
  /-- The alternate stack. -/
  alt : Stack := []
  /-- One entry for each open conditional, innermost first: whether its branch is executed. -/
  frames : List Bool := []
  /-- The number of operations met. -/
  opCount : Nat := 0
  /-- The offset behind the last code separator that was executed. -/
  codeSeparator : Nat := 0
  /-- Whether the machine runs. -/
  status : Status := .running
  deriving Repr, DecidableEq

/-- A change of a state that may fail and then still tells the state it left. -/
abbrev Effect := EStateM Fault State

namespace State

/-- The machine runs. -/
def isRunning (s : State) : Bool :=
  s.status == .running

/-- Every open conditional is in a branch that is executed. -/
def isExecuting (s : State) : Bool :=
  s.frames.all id

/-- The top item is there and is true. -/
def verdict (s : State) : Bool :=
  match s.main with
  | [] => false
  | top :: _ => Number.isTrue top

/-- The answer of a machine that has ended: its verdict, or the fault that stopped it. -/
def answer (s : State) : Except Fault Bool :=
  match s.status with
  | .failed fault => .error fault
  | _ => .ok s.verdict

end State

namespace Effect

/-- An action on the main stack. -/
def onMain {α : Type} (action : Stack.Action α) : Effect α := fun s =>
  match action s.main with
  | .ok a main => .ok a { s with main }
  | .error fault main => .error fault { s with main }

/-- An action on the alternate stack. -/
def onAlt {α : Type} (action : Stack.Action α) : Effect α := fun s =>
  match action s.alt with
  | .ok a alt => .ok a { s with alt }
  | .error fault alt => .error fault { s with alt }

end Effect

end SpendScript
