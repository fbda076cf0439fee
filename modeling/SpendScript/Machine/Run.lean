import SpendScript.Machine.Step
import SpendScript.Opcode.Name

/-!
# Runs of a machine

A machine is run to its end, or until somebody asks it to stop, or while its steps are recorded.
Every step but the last moves the program counter forward, so a run takes at most one step more
than there are bytes left.
-/

namespace SpendScript

/-- What a recorded step shows. -/
structure TraceStep where
  /-- Where the instruction starts. -/
  offset : Nat
  /-- The word for its first byte. -/
  opcode : String
  /-- The main stack after the step, or before it if it failed. -/
  stack : Stack
  deriving Repr, DecidableEq

namespace Machine

variable (m : Machine)

/-- A number of steps that is enough to end a run. -/
def stepsLeft (s : State) : Nat :=
  m.code.length - s.pc + 1

/-- Makes up to `most` steps while the machine runs.  Before each step it is asked whether to
stop: `stop i` is the answer to question `i`. -/
def runUntil (stop : Nat → Bool) : (most question : Nat) → State → State
  | 0, _, s => s
  | most + 1, question, s =>
    if !s.isRunning then s
    else if stop question then { s with status := .failed .cancelled }
    else runUntil stop most (question + 1) (m.next s)

/-- Runs to the end or until asked to stop, and gives the answer and the last state. -/
def executeUntil (stop : Nat → Bool) (s : State) : Except Fault Bool × State :=
  let last := m.runUntil stop (m.stepsLeft s) 0 s
  (last.answer, last)

/-- Runs to the end and gives the answer and the last state. -/
def execute (s : State) : Except Fault Bool × State :=
  m.executeUntil (fun _ => false) s

/-- Makes up to `most` steps while the machine runs and there is code left, and records them. -/
def record : (most : Nat) → State → List TraceStep × State
  | 0, s => ([], s)
  | most + 1, s =>
    match s.isRunning, m.code[s.pc]? with
    | true, some first =>
      let (stack, after) := match m.step s with
        | .ok () after => (after.main, after)
        | .error _ after => (s.main, after)
      let (steps, last) := record most after
      (⟨s.pc, Opcode.describeByte first, stack⟩ :: steps, last)
    | _, _ => ([], s)

/-- Runs to the end while recording every step, and gives the steps, the answer and the last
state.  The end of the code is no step of its own. -/
def trace (s : State) : List TraceStep × Except Fault Bool × State :=
  let (steps, last) := m.record (m.code.length - s.pc) s
  (steps, m.execute last)

/-- The answer of a run from the start. -/
def run : Except Fault Bool :=
  (m.execute {}).1

end Machine

end SpendScript
