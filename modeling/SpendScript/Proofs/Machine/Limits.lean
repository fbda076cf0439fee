import SpendScript.Crypto.ScriptSignature
import SpendScript.Proofs.Machine.Calls

/-!
# Limits of a machine

However a machine is driven, its states stay within limits (`Machine.Limits`): on the counter, on
the stacks and their items, on open conditionals and operations, and on where the last code
separator may stand.  A machine that runs stays within narrower ones; one that failed may have
passed these by the instruction that it failed on, and by no more.

* `Machine.Limits.next` : every step stays within the limits;
* `Machine.limits_calls` : so does every sequence of calls.
-/

namespace SpendScript

open Instruction (operations)

namespace Machine

/-- What holds of every state of a machine. -/
structure Limits (m : Machine) (s : State) : Prop where
  /-- The counter stays within the code. -/
  pc_le : s.pc ≤ m.code.length
  /-- No item of the main stack is too long. -/
  length_item_main_le : ∀ item ∈ s.main, item.length ≤ 520
  /-- No item of the alternate stack is too long. -/
  length_item_alt_le : ∀ item ∈ s.alt, item.length ≤ 520
  /-- There are not too many items on the main stack. -/
  length_main_le : s.main.length ≤ 1000
  /-- Every item of the alternate stack took an operation. -/
  length_alt_le : s.alt.length ≤ s.opCount
  /-- Every open conditional took an operation. -/
  length_frames_le : s.frames.length ≤ s.opCount
  /-- There was one operation too many at most. -/
  opCount_le : s.opCount ≤ 202
  /-- The last code separator lies behind the counter. -/
  codeSeparator_le : s.codeSeparator ≤ s.pc
  /-- Where a code separator was noted, there is one. -/
  codeSeparator_eq : s.codeSeparator = 0 ∨ m.code[s.codeSeparator - 1]? = some 0xab
  /-- Both stacks together hold three items too many at most. -/
  length_le : s.main.length + s.alt.length ≤ 1003
  /-- While the machine runs, there were not too many operations. -/
  opCount_le_of_running : s.status = .running → s.opCount ≤ 201
  /-- While the machine runs, both stacks together do not hold too many items. -/
  length_le_of_running : s.status = .running → s.main.length + s.alt.length ≤ 1000

variable {m : Machine} {s t : State} {i : Instruction}

theorem limits_start (m : Machine) : m.Limits {} where
  pc_le := Nat.zero_le _
  length_item_main_le := by simp
  length_item_alt_le := by simp
  length_main_le := Nat.zero_le _
  length_alt_le := Nat.le_refl _
  length_frames_le := Nat.le_refl _
  opCount_le := Nat.zero_le _
  codeSeparator_le := Nat.le_refl _
  codeSeparator_eq := .inl rfl
  length_le := Nat.zero_le _
  opCount_le_of_running _ := Nat.zero_le _
  length_le_of_running _ := Nat.zero_le _

namespace Limits

theorem sound (h : m.Limits s) (hs : s.status = .running) : s.Sound where
  main := ⟨h.length_item_main_le, h.length_main_le⟩
  alt := by
    have hops := h.opCount_le
    have halt := h.length_alt_le
    refine ⟨h.length_item_alt_le, ?_⟩
    simp only [Stack.maxItems]
    omega
  opCount_le := h.opCount_le_of_running hs

theorem halt (h : m.Limits s) {status : Status} (hstatus : status ≠ .running) :
    m.Limits { s with status } :=
  { h with
    opCount_le_of_running := fun hs => absurd hs hstatus
    length_le_of_running := fun hs => absurd hs hstatus }

/-- What an instruction leaves is within the limits of a machine that has ended, and within those
of a machine that runs if the operations and the items are not too many. -/
theorem change (h : m.Limits s) (hs : s.status = .running) (hreads : m.Reads s i)
    (hchange : Change i (s.behind i) t) {status : Status}
    (hops : status = .running → t.opCount ≤ 201)
    (hroom : status = .running → t.main.length + t.alt.length ≤ 1000) :
    m.Limits { t with status } := by
  have hpc : t.pc = s.pc + i.bytes.length := hchange.pc_eq
  have hcount : t.opCount = s.opCount + operations [i] := hchange.opCount_eq
  have hlength : t.main.length + t.alt.length ≤ s.main.length + s.alt.length + 3 :=
    hchange.length_le
  have halt : t.alt.length ≤ s.alt.length + operations [i] := hchange.length_alt_le
  have hframes : t.frames.length ≤ s.frames.length + operations [i] := hchange.length_frames_le
  have hone : operations [i] ≤ 1 := by
    rw [Instruction.operations_singleton]
    split <;> omega
  have hend := hreads.pc_add_le
  have hpos := Instruction.length_bytes_pos i
  have hops_before := h.opCount_le_of_running hs
  have hroom_before := h.length_le_of_running hs
  have halt_before := h.length_alt_le
  have hframes_before := h.length_frames_le
  have hseparator_before := h.codeSeparator_le
  have hseparator : t.codeSeparator = s.codeSeparator ∨
      i = .operation .codeSeparator ∧ t.codeSeparator = s.pc + i.bytes.length :=
    hchange.codeSeparator_eq
  -- a code separator is noted just when the counter has passed its byte
  have hbyte : t.codeSeparator = 0 ∨ m.code[t.codeSeparator - 1]? = some 0xab := by
    rcases hseparator with hsame | ⟨hi, hnoted⟩
    · rw [hsame]
      exact h.codeSeparator_eq
    · rw [hnoted, hi]
      exact .inr (hreads.getElem?_pred hi)
  have hpc_le : t.pc ≤ m.code.length := by omega
  have halt_le : t.alt.length ≤ t.opCount := by omega
  have hframes_le : t.frames.length ≤ t.opCount := by omega
  have hops_le : t.opCount ≤ 202 := by omega
  have hseparator_le : t.codeSeparator ≤ t.pc := by omega
  have hlength_le : t.main.length + t.alt.length ≤ 1003 := by omega
  exact ⟨hpc_le, hchange.main.length_item_le, hchange.alt.length_item_le, hchange.main.length_le,
    halt_le, hframes_le, hops_le, hseparator_le, hbyte, hlength_le, hops, hroom⟩

/-- **Every step stays within the limits.** -/
theorem next (hcapacity : m.rules.capacity = some Stack.maxItems) (h : m.Limits s)
    (hs : s.status = .running) : m.Limits (m.next s) := by
  have hsound := h.sound hs
  have hmove := move (m := m) hs
  generalize m.next s = t at hmove
  cases hmove with
  | finish | unclosed => exact h.halt (by simp)
  | @cut first rest size hcode hread =>
    obtain ⟨hpos, hle⟩ := Instruction.size_of_read_eq_truncated hread
    have hend : s.pc + size ≤ m.code.length := by
      rw [← hcode, List.length_drop] at hle
      omega
    have hmoved : m.Limits { s with pc := s.pc + size } :=
      { h with
        pc_le := hend
        codeSeparator_le := Nat.le_trans h.codeSeparator_le (Nat.le_add_right _ _) }
    exact hmoved.halt (by simp)
  | @fault i _ t hreads hobey =>
    have houtcome := hreads.obeyed hcapacity hsound
    rw [hobey] at houtcome
    -- the instruction may have been one too many, and may have left operands taken
    exact h.change hs hreads houtcome.1 (by simp) (by simp)
  | @crowded i t hreads hobey =>
    have houtcome := hreads.obeyed hcapacity hsound
    rw [hobey] at houtcome
    exact h.change hs hreads houtcome.1 (by simp) (by simp)
  | @onward i _ hreads hobey hroom =>
    have houtcome := hreads.obeyed hcapacity hsound
    rw [hobey] at houtcome
    obtain ⟨hchange, hfits, -⟩ := houtcome
    exact h.change hs hreads hchange (fun _ => (hchange.sound hfits).opCount_le) fun _ => hroom

end Limits

theorem invariant_limits (hcapacity : m.rules.capacity = some Stack.maxItems) :
    m.Invariant m.Limits where
  next _ hs h := h.next hcapacity hs
  cancelled _ _ h := h.halt (by simp)

/-- **A machine stays within its limits however it is driven.** -/
theorem limits_calls {primitives : Primitives} {digest : Digest} {code : Bytes}
    (h : Machine.load primitives digest code = .ok m) (cs : List Call) :
    m.Limits (m.calls cs {}) := by
  obtain ⟨-, -, -, hrules⟩ := of_load h
  have hcapacity : m.rules.capacity = some Stack.maxItems := by rw [hrules]; rfl
  exact (invariant_limits hcapacity).calls cs (limits_start m)

/-- A code separator, a step on it, and a recorded run that is left with two items. -/
theorem limits_calls_separated :
    ∃ m, Machine.load .standard .zero [0xab, 0x51, 0x76] = .ok m ∧
      m.Limits (m.calls [.step, .trace] {}) :=
  ⟨_, load_eq (by decide), limits_calls (load_eq (by decide)) _⟩

end Machine

end SpendScript
