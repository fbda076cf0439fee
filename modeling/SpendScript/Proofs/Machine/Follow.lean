import SpendScript.Proofs.Machine.Move

/-!
# Following a program

Where the code holds a program, as many steps as it has instructions obey these one after the other
(`Machine.iterate_next_eq_follow`), and nothing else of the code is looked at.

* `Machine.pass_eq` : one instruction, in terms of whether it is carried out or passed over;
* `Machine.follow_append` : a program is followed part by part.
-/

namespace SpendScript

open Instruction (operations codeOf)

namespace Machine

variable (m : Machine)

/-- Obeys an instruction and checks the room behind it, unless the machine has ended. -/
def pass (s : State) (i : Instruction) : State :=
  if s.isRunning then settle (m.obey i (s.behind i)) else s

/-- Obeys the instructions of a program. -/
def follow (program : List Instruction) (s : State) : State :=
  program.foldl m.pass s

variable {m} {i : Instruction} {program rest : List Instruction} {s : State}

@[simp] theorem follow_nil : m.follow [] s = s := rfl

@[simp] theorem follow_cons : m.follow (i :: program) s = m.follow program (m.pass s i) := rfl

@[simp] theorem follow_append : m.follow (program ++ rest) s = m.follow rest (m.follow program s) :=
  List.foldl_append

theorem pass_of_halted (hs : s.status ≠ .running) : m.pass s i = s :=
  if_neg fun h => hs (isRunning_iff.1 h)

theorem follow_of_halted (hs : s.status ≠ .running) : m.follow program s = s := by
  induction program with
  | nil => rfl
  | cons i program ih => rw [follow_cons, pass_of_halted hs, ih]

/-- **An instruction that is neither too long nor one too many** is carried out or passed over. -/
theorem pass_eq (hs : s.status = .running) (hi : i.Readable) (hshort : i.Short)
    (hcount : s.opCount + operations [i] ≤ maxOperations) :
    m.pass s i = settle (if i.isUnconditional || s.isExecuting
      then m.carryOut i ((s.behind i).counted i) else .ok () ((s.behind i).counted i)) := by
  have hobey := obey_eq (m := m) (s := s.behind i) hi hshort
    (Instruction.lt_of_isCounted hcount)
  rw [pass, if_pos (isRunning_iff.2 hs), hobey]
  rfl

theorem next_eq_pass (hs : s.status = .running) (hreads : m.Reads s i) :
    m.next s = m.pass s i := by
  rw [next_of_reads hs hreads, pass, if_pos (isRunning_iff.2 hs)]

/-- Behind an instruction the counter has moved and the instruction is counted, even if it
failed. -/
theorem pass_spec (hs : s.status = .running) (hi : i.Readable) :
    (m.pass s i).pc = s.pc + i.bytes.length ∧
      (m.pass s i).opCount = s.opCount + operations [i] ∧
      ((m.pass s i).status = .running ∨ ∃ fault, (m.pass s i).status = .failed fault) := by
  have hobey := leaves_obey (m := m) hi (s.behind i)
  rw [pass, if_pos (isRunning_iff.2 hs)]
  cases hresult : m.obey i (s.behind i) with
  | error fault t =>
    rw [hresult] at hobey
    exact ⟨hobey.1, hobey.2.2, .inr ⟨fault, rfl⟩⟩
  | ok _ t =>
    rw [hresult] at hobey
    unfold settle
    dsimp only
    split
    · exact ⟨hobey.1, hobey.2.2, .inr ⟨_, rfl⟩⟩
    · exact ⟨hobey.1, hobey.2.2, .inl (hobey.2.1.trans hs)⟩

theorem follow_pc_opCount (hreadable : ∀ i ∈ program, i.Readable)
    (hrunning : (m.follow program s).status = .running) :
    (m.follow program s).pc = s.pc + (codeOf program).length ∧
      (m.follow program s).opCount = s.opCount + operations program := by
  induction program generalizing s with
  | nil => exact ⟨rfl, rfl⟩
  | cons i program ih =>
    rw [List.forall_mem_cons] at hreadable
    have hs : s.status = .running := by
      by_contra hs
      exact hs (follow_of_halted hs ▸ hrunning)
    obtain ⟨hpc, hops, -⟩ := pass_spec (m := m) hs hreadable.1
    rw [follow_cons] at hrunning ⊢
    obtain ⟨hpc', hops'⟩ := ih hreadable.2 hrunning
    rw [hpc', hops', hpc, hops, @Instruction.operations_cons i program,
      Instruction.codeOf_cons, List.length_append]
    omega

theorem status_follow (hreadable : ∀ i ∈ program, i.Readable) (hs : s.status = .running) :
    (m.follow program s).status = .running ∨
      ∃ fault, (m.follow program s).status = .failed fault := by
  induction program generalizing s with
  | nil => exact .inl hs
  | cons i program ih =>
    rw [List.forall_mem_cons] at hreadable
    obtain ⟨-, -, hstatus⟩ := pass_spec (m := m) hs hreadable.1
    rw [follow_cons]
    rcases hstatus with hrunning | ⟨fault, hfailed⟩
    · exact ih hreadable.2 hrunning
    · rw [follow_of_halted (by simp [hfailed])]
      exact .inr ⟨fault, hfailed⟩

theorem length_follow_le (hroom : s.main.length + s.alt.length ≤ Stack.maxItems)
    (hrunning : (m.follow program s).status = .running) :
    (m.follow program s).main.length + (m.follow program s).alt.length ≤ Stack.maxItems := by
  induction program generalizing s with
  | nil => exact hroom
  | cons i program ih =>
    rw [follow_cons] at hrunning ⊢
    refine ih ?_ hrunning
    have hs : (m.pass s i).status = .running := by
      by_contra hs
      exact hs (follow_of_halted hs ▸ hrunning)
    unfold pass at hs ⊢
    split
    · rw [if_pos ‹_›] at hs
      exact length_settle_le hs
    · exact hroom

/-- **Where the code holds a program, the machine follows it.** -/
theorem iterate_next_eq_follow (hreadable : ∀ i ∈ program, i.Readable)
    (hcode : codeOf program <+: m.code.drop s.pc) :
    m.next^[program.length] s = m.follow program s := by
  induction program generalizing s with
  | nil => rfl
  | cons i program ih =>
    by_cases hs : s.status = .running
    · rw [List.forall_mem_cons] at hreadable
      rw [Instruction.codeOf_cons] at hcode
      -- the counter has moved behind the instruction, where the rest of the program stands
      have hreads : m.Reads s i := ⟨hreadable.1, (List.prefix_append _ _).trans hcode⟩
      have hnext := next_eq_pass hs hreads
      obtain ⟨hpc, -, -⟩ := pass_spec (m := m) hs hreadable.1
      rw [List.length_cons, Function.iterate_succ_apply, hnext, follow_cons]
      refine ih hreadable.2 ?_
      obtain ⟨tail, htail⟩ := hcode
      rw [hpc, ← List.drop_drop, ← htail, List.append_assoc, List.drop_left]
      exact List.prefix_append _ _
    · rw [follow_of_halted hs, iterate_next_of_halted hs]

theorem follow_congr {m' : Machine} (hdigest : m'.digest = m.digest)
    (hprimitives : m'.primitives = m.primitives) (hrules : m'.rules = m.rules)
    (program : List Instruction) (s : State) : m'.follow program s = m.follow program s := by
  have hobey : m'.obey = m.obey := obey_congr hdigest hprimitives hrules
  have hpass : m'.pass = m.pass := by
    funext s i
    rw [pass, pass, hobey]
  rw [follow, follow, hpass]

theorem exists_load_follow {primitives : Primitives} {digest : Digest} {code code' : Bytes}
    (hload : Machine.load primitives digest code = .ok m) (hlen : code'.length ≤ maxCodeSize) :
    ∃ m', Machine.load primitives digest code' = .ok m' ∧ m'.code = code' ∧
      ∀ program s, m'.follow program s = m.follow program s := by
  obtain ⟨-, hdigest, hprimitives, hrules⟩ := of_load hload
  exact ⟨_, load_eq hlen, rfl, follow_congr hdigest.symm hprimitives.symm hrules.symm⟩

end Machine

end SpendScript
