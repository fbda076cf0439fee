import SpendScript.Proofs.Machine.Calls
import SpendScript.Proofs.Machine.Follow

/-!
# Straight-line code

A program of instructions that look at the main stack alone is an action on this stack, and a run
of its code does this action to the empty stack.  The action is composed of those of the parts of
the program, so that code of any length is dealt with part by part.

* `Machine.straight_append` : one program behind another;
* `Machine.run_eq_straight` : a run of the code of a program;
* `Instruction.Light.append` : the size of a program and the number of its operations, from those of
  its parts.
-/

namespace SpendScript

open Instruction (operations codeOf decode?)
open Stack (Bounded)

/-- The state behind a program that left this main stack. -/
def State.leaving (s : State) (program : List Instruction) (main : Stack) : State :=
  { s with pc := s.pc + (codeOf program).length, opCount := s.opCount + operations program, main }

theorem State.leaving_singleton (s : State) (i : Instruction) (main : Stack) :
    s.leaving [i] main = { (s.behind i).counted i with main } := by
  simp [State.leaving, State.counted, State.behind]

theorem State.leaving_append (s : State) (program rest : List Instruction) (main last : Stack) :
    (s.leaving program main).leaving rest last = s.leaving (program ++ rest) last := by
  simp only [State.leaving, Instruction.codeOf_append, List.length_append,
    Instruction.operations_append, Nat.add_assoc]

theorem State.leaving_cons (s : State) (i : Instruction) (program : List Instruction)
    (main last : Stack) :
    (s.leaving [i] main).leaving program last = s.leaving (i :: program) last :=
  s.leaving_append [i] program main last

namespace Machine

variable (m : Machine)

/-- What the instructions of a program do to the main stack, if they look at nothing else. -/
def straight : List Instruction → Stack.Action Unit
  | [] => pure ()
  | i :: rest => do
    (m.mainAction? i).getD (pure ())
    straight rest

/-- The answer of a run that ends with the result of an action: the fault, or the truth value of
the top item. -/
def answerOf : EStateM.Result Fault Stack Unit → Except Fault Bool
  | .ok _ main => .ok ({ main } : State).verdict
  | .error fault _ => .error fault

/-- Every instruction of the program looks at the main stack alone. -/
def IsStraight (program : List Instruction) : Prop :=
  ∀ i ∈ program, (m.mainAction? i).isSome

variable {m} {i : Instruction} {program rest : List Instruction} {s : State}
  {main main' : Stack} {fault : Fault} {action : Stack.Action Unit}

/-! ### Composition -/

theorem straight_cons (h : m.mainAction? i = some action) (rest : List Instruction) :
    m.straight (i :: rest) = (action >>= fun _ => m.straight rest) := by
  rw [straight, h, Option.getD_some]

/-- **The action of one program behind another.** -/
theorem straight_append (program rest : List Instruction) :
    m.straight (program ++ rest) = (m.straight program >>= fun _ => m.straight rest) := by
  induction program with
  | nil => rw [List.nil_append, straight, pure_bind]
  | cons i program ih => rw [List.cons_append, straight, straight, ih, bind_assoc]

theorem straight_cons_of_ok (h : m.mainAction? i = some action)
    (haction : action main = .ok () main') (rest : List Instruction) :
    m.straight (i :: rest) main = m.straight rest main' := by
  rw [straight_cons h, Effect.bind_apply, haction]

theorem straight_append_of_ok (h : m.straight program main = .ok () main')
    (rest : List Instruction) : m.straight (program ++ rest) main = m.straight rest main' := by
  rw [straight_append, Effect.bind_apply, h]

/-! ### Runs -/

theorem pass_straight (hcapacity : m.rules.capacity = some Stack.maxItems)
    (hs : s.status = .running) (hframes : s.frames = []) (halt : s.alt = [])
    (hmain : Bounded s.main) (hi : i.Readable) (hshort : i.Short)
    (hcount : s.opCount + operations [i] ≤ maxOperations)
    (haction : m.mainAction? i = some action) :
    match action s.main with
    | .ok _ main => Bounded main ∧ m.pass s i = s.leaving [i] main
    | .error fault _ => (m.pass s i).status = .failed fault := by
  have hexecuting : s.isExecuting = true := by
    rw [State.isExecuting, hframes]
    rfl
  have htame := tame_mainAction? hcapacity haction s.main hmain
  rw [pass_eq hs hi hshort hcount, if_pos (by rw [hexecuting, Bool.or_true]),
    carryOut_eq_onMain haction, Effect.onMain_apply]
  show match action s.main with
    | .ok _ main => Bounded main ∧ settle (Effect.mainResult _ (action s.main)) = _
    | .error fault _ => (settle (Effect.mainResult _ (action s.main))).status = .failed fault
  cases hresult : action s.main with
  | error fault main => rfl
  | ok _ main =>
    rw [hresult] at htame
    refine ⟨htame.1, ?_⟩
    rw [State.leaving_singleton]
    refine settle_ok ?_
    show main.length + s.alt.length ≤ Stack.maxItems
    -- the other stack is empty, so that the bound for one is a bound for both
    rw [halt]
    exact htame.1.length_le

/-- **A machine that follows straight-line code does one action to the main stack.** -/
theorem follow_straight (hcapacity : m.rules.capacity = some Stack.maxItems)
    (hs : s.status = .running) (hframes : s.frames = []) (halt : s.alt = [])
    (hmain : Bounded s.main) (hreadable : ∀ i ∈ program, i.Readable)
    (hshort : ∀ i ∈ program, i.Short) (hcount : s.opCount + operations program ≤ maxOperations)
    (hstraight : m.IsStraight program) :
    match m.straight program s.main with
    | .ok _ main => m.follow program s = s.leaving program main
    | .error fault _ => (m.follow program s).status = .failed fault := by
  induction program generalizing s with
  | nil => rfl
  | cons i program ih =>
    rw [List.forall_mem_cons] at hreadable hshort
    obtain ⟨hi, hstraight⟩ := List.forall_mem_cons.1 hstraight
    obtain ⟨action, haction⟩ := Option.isSome_iff_exists.1 hi
    rw [@Instruction.operations_cons i program] at hcount
    have hpass := pass_straight hcapacity hs hframes halt hmain hreadable.1 hshort.1 (by omega)
      haction
    rw [straight_cons haction, Effect.bind_apply, follow_cons]
    cases hresult : action s.main with
    | error fault main =>
      rw [hresult] at hpass
      show (m.follow program (m.pass s i)).status = .failed fault
      rw [follow_of_halted (by simp [hpass]), hpass]
    | ok _ main =>
      rw [hresult] at hpass
      obtain ⟨hbounded, hpass⟩ := hpass
      have hrest := ih (s := s.leaving [i] main) hs hframes halt hbounded hreadable.2 hshort.2
        (by simp only [State.leaving]; omega) hstraight
      simp only [State.leaving_cons] at hrest
      rw [hpass]
      exact hrest

theorem run_eq_answer (hcapacity : m.rules.capacity = some Stack.maxItems) {k : Nat}
    (hk : (m.next^[k] {}).status ≠ .running) : m.run = (m.next^[k] {}).answer := by
  rw [run, execute_eq_of_halted hcapacity regular_start hk]

/-- **A run of straight-line code does its action to the empty stack.** -/
theorem run_eq_straight (hcapacity : m.rules.capacity = some Stack.maxItems)
    (hdecode : decode? m.code = some program) (hshort : ∀ i ∈ program, i.Short)
    (hcount : operations program ≤ maxOperations) (hstraight : m.IsStraight program) :
    m.run = answerOf (m.straight program []) := by
  obtain ⟨hreadable, hcode⟩ := Instruction.decode?_eq_some_iff.1 hdecode
  have hiterate : m.next^[program.length] {} = m.follow program {} :=
    iterate_next_eq_follow hreadable (by rw [hcode]; exact List.prefix_refl _)
  have hfollow := follow_straight hcapacity rfl rfl rfl Stack.bounded_nil hreadable hshort
    (s := {}) (by rwa [Nat.zero_add]) hstraight
  show m.run = answerOf (m.straight program ({} : State).main)
  cases hlast : m.straight program ({} : State).main with
  | error fault main =>
    rw [hlast] at hfollow
    have hfailed : (m.next^[program.length] {}).status = .failed fault := by
      rw [hiterate]
      exact hfollow
    rw [run_eq_answer hcapacity (k := program.length) (by simp [hfailed]), State.answer, hfailed]
    rfl
  | ok _ main =>
    rw [hlast] at hfollow
    -- one more step finds the end of the code
    have hend : m.next^[program.length + 1] {} =
        { State.leaving {} program main with status := .succeeded } := by
      have hat : m.code.length ≤ (State.leaving {} program main).pc := by
        rw [← hcode]
        exact Nat.le_add_left _ _
      rw [Function.iterate_succ_apply', hiterate, hfollow, next_at_end rfl hat]
      exact if_pos rfl
    rw [run_eq_answer hcapacity (k := program.length + 1) (by simp [hend]), hend]
    rfl

end Machine

/-! ### Size and number of operations -/

/-- The program is straight-line code without a push of too many bytes, and has at most so many
bytes and operations. -/
structure Instruction.Light (program : List Instruction) (size count : Nat) : Prop where
  /-- No push holds too many bytes. -/
  short : ∀ i ∈ program, i.Short
  /-- Every instruction looks at the main stack alone. -/
  straight : ∀ m : Machine, m.IsStraight program
  /-- The code is not longer. -/
  length_le : (codeOf program).length ≤ size
  /-- There are not more operations. -/
  operations_le : operations program ≤ count

namespace Instruction

variable {program rest : List Instruction} {size size' n n' : Nat}

theorem Light.mono (h : Light program size n) (hsize : size ≤ size') (hn : n ≤ n') :
    Light program size' n' :=
  { h with length_le := h.length_le.trans hsize, operations_le := h.operations_le.trans hn }

theorem Light.append (h : Light program size n) (h' : Light rest size' n') :
    Light (program ++ rest) (size + size') (n + n') where
  short := List.forall_mem_append.2 ⟨h.short, h'.short⟩
  straight m := List.forall_mem_append.2 ⟨h.straight m, h'.straight m⟩
  length_le := by
    rw [codeOf_append, List.length_append]
    exact Nat.add_le_add h.length_le h'.length_le
  operations_le := by
    rw [operations_append]
    exact Nat.add_le_add h.operations_le h'.operations_le

theorem light_operation {op : Operation}
    (h : ∀ m : Machine, (m.mainAction? (.operation op)).isSome) :
    Light [.operation op] 1 1 where
  short := by simp [Short]
  straight m := by simpa [Machine.IsStraight] using h m
  length_le := Nat.le_refl _
  operations_le := List.countP_le_length

end Instruction

end SpendScript
