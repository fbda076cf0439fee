import SpendScript.Machine.Run
import SpendScript.Proofs.Machine.Change
import Mathlib.Logic.Function.Iterate

/-!
# Single steps of a running machine

A running machine makes one of six moves (`Machine.Move`): at the end of the code it ends well or
finds a conditional open; before that it finds a push cut off, or an instruction, and then it fails
on it, or finds no room behind it, or goes on.

* `Machine.move` : every step of a running machine is one of these;
* `Machine.next_of_reads` : the step at a complete instruction, as an equation;
* `Machine.iterate_next_of_halted` : a machine that has ended stays as it is.
-/

namespace SpendScript

open Instruction (operations)

/-- The state with the counter behind an instruction. -/
def State.behind (s : State) (i : Instruction) : State :=
  { s with pc := s.pc + i.bytes.length }

namespace Machine

variable (m : Machine)

/-- The instruction stands at the counter. -/
def Reads (s : State) (i : Instruction) : Prop :=
  i.Readable ∧ i.bytes <+: m.code.drop s.pc

/-- What one step makes of a state that runs. -/
inductive Move (s : State) : State → Prop
  /-- The code has ended. -/
  | finish (hend : m.code.length ≤ s.pc) (hframes : s.frames = []) :
      Move s { s with status := .succeeded }
  /-- The code has ended inside a conditional. -/
  | unclosed (hend : m.code.length ≤ s.pc) (hframes : s.frames ≠ []) :
      Move s { s with status := .failed .unbalancedConditional }
  /-- The code ends inside a push. -/
  | cut {first : UInt8} {rest : Bytes} {size : Nat} (hcode : m.code.drop s.pc = first :: rest)
      (hread : Instruction.read first rest = .truncated size) :
      Move s { s with pc := s.pc + size, status := .failed .badStackOperation }
  /-- An instruction fails. -/
  | fault {i : Instruction} {fault : Fault} {t : State} (hreads : m.Reads s i)
      (hobey : m.obey i (s.behind i) = .error fault t) :
      Move s { t with status := .failed fault }
  /-- An instruction leaves too many items. -/
  | crowded {i : Instruction} {t : State} (hreads : m.Reads s i)
      (hobey : m.obey i (s.behind i) = .ok () t)
      (hroom : Stack.maxItems < t.main.length + t.alt.length) :
      Move s { t with status := .failed .stackSize }
  /-- An instruction is obeyed. -/
  | onward {i : Instruction} {t : State} (hreads : m.Reads s i)
      (hobey : m.obey i (s.behind i) = .ok () t)
      (hroom : t.main.length + t.alt.length ≤ Stack.maxItems) : Move s t

/-- The state behind an instruction, from what obeying it left. -/
def settle : EStateM.Result Fault State Unit → State
  | .ok _ t =>
    if Stack.maxItems < t.main.length + t.alt.length then { t with status := .failed .stackSize }
    else t
  | .error fault t => { t with status := .failed fault }

variable {m} {i : Instruction} {s : State}

theorem settle_ok {t : State} (h : t.main.length + t.alt.length ≤ Stack.maxItems) :
    settle (.ok () t) = t :=
  if_neg (Nat.not_lt.2 h)

theorem length_settle_le {r : EStateM.Result Fault State Unit}
    (h : (settle r).status = .running) :
    (settle r).main.length + (settle r).alt.length ≤ Stack.maxItems := by
  cases r with
  | error fault t => exact absurd h (by simp [settle])
  | ok _ t =>
    by_cases hroom : t.main.length + t.alt.length ≤ Stack.maxItems
    · rwa [settle_ok hroom]
    · exact absurd h (by simp [settle, Nat.not_le.1 hroom])

theorem load_eq {primitives : Primitives} {digest : Digest} {code : Bytes}
    (h : code.length ≤ maxCodeSize) :
    Machine.load primitives digest code = .ok ⟨code, digest, primitives, .standard, h⟩ :=
  dif_pos h

theorem of_load {primitives : Primitives} {digest : Digest} {code : Bytes}
    (h : Machine.load primitives digest code = .ok m) :
    m.code = code ∧ m.digest = digest ∧ m.primitives = primitives ∧ m.rules = .standard := by
  unfold Machine.load at h
  split at h
  · obtain rfl := Except.ok.inj h
    exact ⟨rfl, rfl, rfl, rfl⟩
  · exact absurd h (by simp)

theorem capacity_of_load {primitives : Primitives} {digest : Digest} {code : Bytes}
    (h : Machine.load primitives digest code = .ok m) :
    m.rules.capacity = some Stack.maxItems := by
  obtain ⟨-, -, -, hrules⟩ := of_load h
  rw [hrules]
  rfl

theorem isRunning_iff : s.isRunning = true ↔ s.status = .running := by
  simp [State.isRunning]

/-! ### Where a step stands -/

theorem Reads.pc_add_le (h : m.Reads s i) : s.pc + i.bytes.length ≤ m.code.length := by
  have hlen := h.2.length_le
  have hpos := Instruction.length_bytes_pos i
  rw [List.length_drop] at hlen
  omega

theorem Reads.getElem?_pred (h : m.Reads s i) {op : Operation} (hi : i = .operation op) :
    m.code[s.pc]? = some op.toByte := by
  obtain ⟨-, rest, hcode⟩ := h
  have hget : (m.code.drop s.pc)[0]? = some op.toByte := by
    rw [← hcode, hi]
    rfl
  rwa [List.getElem?_drop, Nat.add_zero] at hget

/-- What `obeyed` says of the instruction at the counter. -/
theorem Reads.obeyed (h : m.Reads s i) (hcapacity : m.rules.capacity = some Stack.maxItems)
    (hs : s.Sound) : Obeyed m.primitives i (s.behind i) (m.obey i (s.behind i)) :=
  Machine.obeyed hcapacity h.1 ⟨hs.main, hs.alt, hs.opCount_le⟩

theorem step_eq_of_advance (hs : s.status = .running) :
    m.step s = match m.advance s with
      | .ok _ t => .ok () t
      | .error fault t => .error fault { t with status := .failed fault } := by
  simp only [step, hs]
  cases m.advance s <;> rfl

theorem next_eq_of_advance (hs : s.status = .running) :
    m.next s = match m.advance s with
      | .ok _ t => t
      | .error fault t => { t with status := .failed fault } := by
  rw [next, step_eq_of_advance hs]
  cases m.advance s <;> rfl

theorem next_at_end (hs : s.status = .running) (hend : m.code.length ≤ s.pc) :
    m.next s = if s.frames = [] then { s with status := .succeeded }
      else { s with status := .failed .unbalancedConditional } := by
  have hdrop : m.code.drop s.pc = [] := List.drop_eq_nil_of_le hend
  rw [next_eq_of_advance hs]
  simp only [advance, hdrop, finish, List.isEmpty_iff]
  by_cases hframes : s.frames = []
  · simp only [if_pos hframes]
  · simp only [if_neg hframes]

theorem step_of_cut (hs : s.status = .running) {first : UInt8} {rest : Bytes} {size : Nat}
    (hcode : m.code.drop s.pc = first :: rest)
    (hread : Instruction.read first rest = .truncated size) :
    m.step s = .error .badStackOperation
      { s with pc := s.pc + size, status := .failed .badStackOperation } := by
  rw [step_eq_of_advance hs]
  simp only [advance, hcode, Effect.bind_apply, attempt, hread]

theorem next_of_cut (hs : s.status = .running) {first : UInt8} {rest : Bytes} {size : Nat}
    (hcode : m.code.drop s.pc = first :: rest)
    (hread : Instruction.read first rest = .truncated size) :
    m.next s = { s with pc := s.pc + size, status := .failed .badStackOperation } := by
  rw [next, step_of_cut hs hcode hread]

theorem advance_of_reads (hreads : m.Reads s i) :
    m.advance s = match m.obey i (s.behind i) with
      | .ok _ t => checkRoom t
      | .error fault t => .error fault t := by
  obtain ⟨hi, hprefix⟩ := hreads
  have hcode : m.code.drop s.pc = i.opcode :: (m.code.drop s.pc).tail := by
    obtain ⟨rest, hrest⟩ := hprefix
    rw [← hrest, Instruction.bytes_eq]
    rfl
  have hread : Instruction.read i.opcode (m.code.drop s.pc).tail =
      .complete i i.bytes.length := by
    rw [Instruction.read_eq_complete_iff, ← hcode]
    exact ⟨hi, rfl, hprefix⟩
  rw [advance]
  rw [hcode] at hread ⊢
  simp only [List.tail_cons] at hread
  simp only [Effect.bind_apply, attempt, hread]
  have hbehind : ({ s with pc := s.pc + i.bytes.length } : State) = s.behind i := rfl
  rw [hbehind]
  cases m.obey i (s.behind i) <;> rfl

theorem step_of_reads_ok (hs : s.status = .running) (hreads : m.Reads s i) {t : State}
    (hobey : m.obey i (s.behind i) = .ok () t)
    (hroom : t.main.length + t.alt.length ≤ Stack.maxItems) : m.step s = .ok () t := by
  rw [step_eq_of_advance hs, advance_of_reads hreads, hobey]
  simp only [checkRoom, gt_iff_lt, if_neg (Nat.not_lt.2 hroom)]

theorem step_of_reads_crowded (hs : s.status = .running) (hreads : m.Reads s i) {t : State}
    (hobey : m.obey i (s.behind i) = .ok () t)
    (hroom : Stack.maxItems < t.main.length + t.alt.length) :
    m.step s = .error .stackSize { t with status := .failed .stackSize } := by
  rw [step_eq_of_advance hs, advance_of_reads hreads, hobey]
  simp only [checkRoom, gt_iff_lt, if_pos hroom]

theorem step_of_reads_error (hs : s.status = .running) (hreads : m.Reads s i) {fault : Fault}
    {t : State} (hobey : m.obey i (s.behind i) = .error fault t) :
    m.step s = .error fault { t with status := .failed fault } := by
  rw [step_eq_of_advance hs, advance_of_reads hreads, hobey]

/-- **The step at a complete instruction.** -/
theorem next_of_reads (hs : s.status = .running) (hreads : m.Reads s i) :
    m.next s = settle (m.obey i (s.behind i)) := by
  rw [next_eq_of_advance hs, advance_of_reads hreads]
  cases m.obey i (s.behind i) with
  | error fault t => rfl
  | ok _ t =>
    by_cases hroom : Stack.maxItems < t.main.length + t.alt.length
    · simp only [checkRoom, settle, gt_iff_lt, if_pos hroom]
    · simp only [checkRoom, settle, gt_iff_lt, if_neg hroom]

/-- **Every step of a running machine is one of the six moves.** -/
theorem move (hs : s.status = .running) : m.Move s (m.next s) := by
  cases hcode : m.code.drop s.pc with
  | nil =>
    have hend : m.code.length ≤ s.pc := List.drop_eq_nil_iff.1 hcode
    rw [next_at_end hs hend]
    split
    · exact .finish hend ‹_›
    · exact .unclosed hend ‹_›
  | cons first rest =>
    cases hread : Instruction.read first rest with
    | truncated size =>
      rw [next_of_cut hs hcode hread]
      exact .cut hcode hread
    | complete i size =>
      obtain ⟨hi, -, hprefix⟩ := Instruction.read_eq_complete_iff.1 hread
      have hreads : m.Reads s i := ⟨hi, hcode ▸ hprefix⟩
      rw [next_of_reads hs hreads]
      cases hobey : m.obey i (s.behind i) with
      | error fault t => exact .fault hreads hobey
      | ok _ t =>
        unfold settle
        dsimp only
        split
        · exact .crowded hreads hobey ‹_›
        · exact .onward hreads hobey (Nat.not_lt.1 ‹_›)

/-! ### Instructions that look at the main stack alone -/

theorem reads_of_getElem? {op : Operation} (h : m.code[s.pc]? = some op.toByte) :
    m.Reads s (.operation op) := by
  obtain ⟨hlt, hbyte⟩ := List.getElem?_eq_some_iff.1 h
  refine ⟨trivial, ?_⟩
  rw [List.drop_eq_getElem_cons hlt, hbyte]
  exact List.prefix_append [op.toByte] _

variable {action : Stack.Action Unit}

theorem obey_of_mainAction? (haction : m.mainAction? i = some action) (hi : i.Readable)
    (hshort : i.Short) (hexecuting : s.isExecuting = true)
    (hcount : i.isCounted = true → s.opCount < maxOperations) :
    m.obey i (s.behind i) = Effect.mainResult ((s.behind i).counted i) (action s.main) := by
  have hbehind : (s.behind i).isExecuting = true := hexecuting
  have hobey := obey_eq (m := m) (s := s.behind i) hi hshort hcount
  rw [hobey, hbehind, Bool.or_true, if_pos rfl, carryOut_eq_onMain haction, Effect.onMain_apply]
  rfl

theorem step_of_mainAction?_ok {main : Stack} (haction : m.mainAction? i = some action)
    (hs : s.status = .running) (hreads : m.Reads s i) (hshort : i.Short)
    (hexecuting : s.isExecuting = true) (hcount : i.isCounted = true → s.opCount < maxOperations)
    (hrun : action s.main = .ok () main) (hroom : main.length + s.alt.length ≤ Stack.maxItems) :
    m.step s = .ok () { s with
      pc := s.pc + i.bytes.length, main, opCount := s.opCount + operations [i] } := by
  have hobey := obey_of_mainAction? haction hreads.1 hshort hexecuting hcount
  rw [hrun] at hobey
  exact step_of_reads_ok hs hreads hobey hroom

theorem step_of_mainAction?_error {fault : Fault} {main : Stack}
    (haction : m.mainAction? i = some action) (hs : s.status = .running) (hreads : m.Reads s i)
    (hshort : i.Short) (hexecuting : s.isExecuting = true)
    (hcount : i.isCounted = true → s.opCount < maxOperations)
    (hrun : action s.main = .error fault main) :
    m.step s = .error fault { s with
      pc := s.pc + i.bytes.length, main, opCount := s.opCount + operations [i],
      status := .failed fault } := by
  have hobey := obey_of_mainAction? haction hreads.1 hshort hexecuting hcount
  rw [hrun] at hobey
  exact step_of_reads_error hs hreads hobey

/-! ### Machines that have ended -/

theorem next_of_halted (hs : s.status ≠ .running) : m.next s = s := by
  unfold next step
  cases hstatus : s.status with
  | running => exact absurd hstatus hs
  | succeeded => rfl
  | failed fault => rfl

theorem iterate_next_of_halted (hs : s.status ≠ .running) (n : Nat) : m.next^[n] s = s :=
  Function.iterate_fixed (next_of_halted hs) n

end Machine

end SpendScript
