import SpendScript.Crypto.ScriptSignature
import SpendScript.Proofs.Machine.Calls

/-!
# Recorded runs

A recorded run makes the steps of a run that is not recorded, and notes each of them that begins
at an instruction: where it began, the word for the byte there, and the main stack behind it or, if
it failed, before it.

* `Machine.record_spec` : what is recorded are the first steps, one by one;
* `Machine.record_complete` : and all of them up to the end of the code or of the run;
* `Machine.trace_recording` : so a recorded run ends as the run does, and the record is true
  (`Machine.Recording`).
-/

namespace SpendScript

namespace Machine

variable (m : Machine)

/-- The main stack behind the next step, or before it if it fails. -/
def shown (s : State) : Stack :=
  match m.step s with
  | .ok _ t => t.main
  | .error _ _ => s.main

/-- The entry tells of the step that a running machine makes from this state. -/
def Notes (s : State) (entry : TraceStep) : Prop :=
  s.status = .running ∧ ∃ first, m.code[s.pc]? = some first ∧
    entry = ⟨s.pc, Opcode.describeByte first, m.shown s⟩

/-- The entries tell of the first steps from this state, one by one. -/
def Noted (s : State) (entries : List TraceStep) : Prop :=
  ∀ i (h : i < entries.length), m.Notes (m.next^[i] s) entries[i]

/-- The entries tell truly and completely of the run from this state. -/
structure Recording (s : State) (entries : List TraceStep) : Prop where
  /-- Each is about the step with its number, which a running machine makes inside the code. -/
  entry : ∀ i (h : i < entries.length), (m.next^[i] s).status = .running ∧
    entries[i].offset = (m.next^[i] s).pc ∧
    ∃ first, m.code[(m.next^[i] s).pc]? = some first ∧
      entries[i].opcode = Opcode.describeByte first
  /-- No step that a running machine makes inside the code is missing. -/
  lt_length : ∀ i, (m.next^[i] s).status = .running → (m.next^[i] s).pc < m.code.length →
    i < entries.length
  /-- A step that succeeds shows the stack that it left. -/
  stack_of_ok : ∀ i (h : i < entries.length) t, m.step (m.next^[i] s) = .ok () t →
    entries[i].stack = t.main
  /-- A step that fails is the last one and shows the stack that it found, which is what the entry
  before it shows. -/
  stack_of_error : ∀ i (h : i < entries.length) fault t,
    m.step (m.next^[i] s) = .error fault t →
      i + 1 = entries.length ∧ entries[i].stack = (m.next^[i] s).main ∧
        ∀ hpos : 0 < i, entries[i - 1].stack = entries[i].stack
  /-- The offsets grow. -/
  offset_lt : entries.Pairwise fun a b => a.offset < b.offset
  /-- A conditional that is found open behind the last entry adds none. -/
  unclosed : (m.next^[entries.length] s).status = .running →
    (m.next^[entries.length] s).frames ≠ [] →
      m.execute s = (.error .unbalancedConditional,
        { m.next^[entries.length] s with status := .failed .unbalancedConditional })

variable {m} {s t : State}

/-! ### Steps and their answers -/

theorem next_of_step_ok (h : m.step s = .ok () t) : m.next s = t := by
  rw [next, h]

theorem next_of_step_error {fault : Fault} (h : m.step s = .error fault t) : m.next s = t := by
  rw [next, h]

theorem status_of_step_error {fault : Fault} (h : m.step s = .error fault t) :
    t.status = .failed fault := by
  unfold step at h
  cases hs : s.status with
  | running =>
    simp only [hs] at h
    cases hadvance : m.advance s with
    | ok _ u => exact absurd h (by simp [hadvance])
    | error fault' u =>
      simp only [hadvance, EStateM.Result.error.injEq] at h
      obtain ⟨rfl, rfl⟩ := h
      rfl
  | succeeded => exact absurd h (by simp [hs])
  | failed fault' =>
    simp only [hs, EStateM.Result.error.injEq] at h
    obtain ⟨rfl, rfl⟩ := h
    exact hs

theorem status_of_step_ok (hcapacity : m.rules.capacity = some Stack.maxItems)
    (hs : s.Sound) (hrunning : s.status = .running) (hpc : s.pc < m.code.length)
    (hstep : m.step s = .ok () t) : t.status = .running := by
  have hcode := List.drop_eq_getElem_cons hpc
  cases hread : Instruction.read m.code[s.pc] (m.code.drop (s.pc + 1)) with
  | truncated size => exact absurd ((step_of_cut hrunning hcode hread).symm.trans hstep) (by simp)
  | complete i size =>
    obtain ⟨hi, -, hprefix⟩ := Instruction.read_eq_complete_iff.1 hread
    have hreads : m.Reads s i := ⟨hi, hcode ▸ hprefix⟩
    have houtcome := hreads.obeyed hcapacity hs
    rw [step_eq_of_advance hrunning, advance_of_reads hreads] at hstep
    cases hobey : m.obey i (s.behind i) with
    | error fault u => exact absurd hstep (by simp [hobey])
    | ok _ u =>
      rw [hobey] at houtcome hstep
      have hu : u.status = .running := houtcome.1.status_eq.trans hrunning
      by_cases hroom : Stack.maxItems < u.main.length + u.alt.length
      · exact absurd hstep (by simp [checkRoom, hroom])
      · simp only [checkRoom, gt_iff_lt, if_neg hroom, EStateM.Result.ok.injEq] at hstep
        rw [← hstep.2, hu]

/-! ### The record -/

theorem record_of_running {first : UInt8} (most : Nat) (hs : s.status = .running)
    (hfirst : m.code[s.pc]? = some first) :
    m.record (most + 1) s =
      (⟨s.pc, Opcode.describeByte first, m.shown s⟩ :: (m.record most (m.next s)).1,
        (m.record most (m.next s)).2) := by
  rw [record, isRunning_iff.2 hs, hfirst, shown, next]
  cases m.step s <;> rfl

theorem record_of_not (most : Nat) (h : ¬ (s.status = .running ∧ s.pc < m.code.length)) :
    m.record most s = ([], s) := by
  cases most with
  | zero => rfl
  | succ most =>
    rw [record]
    split
    · rename_i hrunning hfirst
      exact absurd ⟨isRunning_iff.1 hrunning, (List.getElem?_eq_some_iff.1 hfirst).1⟩ h
    · rfl

/-- **What is recorded are the first steps**, one by one, and the state behind them. -/
theorem record_spec (most : Nat) (s : State) :
    (m.record most s).2 = m.next^[(m.record most s).1.length] s ∧
      m.Noted s (m.record most s).1 := by
  induction most generalizing s with
  | zero => exact ⟨rfl, fun i h => absurd h (Nat.not_lt_zero i)⟩
  | succ most ih =>
    by_cases h : s.status = .running ∧ s.pc < m.code.length
    · obtain ⟨hs, hpc⟩ := h
      have hfirst : m.code[s.pc]? = some m.code[s.pc] := List.getElem?_eq_getElem hpc
      obtain ⟨hlast, hentries⟩ := ih (m.next s)
      simp only [record_of_running most hs hfirst]
      refine ⟨hlast, fun i hi => ?_⟩
      cases i with
      | zero => exact ⟨hs, _, hfirst, rfl⟩
      | succ i => exact hentries i (Nat.lt_of_succ_lt_succ hi)
    · simp only [record_of_not (most + 1) h]
      exact ⟨rfl, fun i hi => absurd hi (Nat.not_lt_zero i)⟩

/-- **Nothing is missing from the record**: it goes on to the end of the run or of the code. -/
theorem record_complete (hcapacity : m.rules.capacity = some Stack.maxItems) {most : Nat}
    (hs : s.Regular) (hmost : m.code.length ≤ s.pc + most)
    (hrunning : (m.record most s).2.status = .running) :
    m.code.length ≤ (m.record most s).2.pc := by
  induction most generalizing s with
  | zero => exact hmost
  | succ most ih =>
    by_cases h : s.status = .running ∧ s.pc < m.code.length
    · obtain ⟨hstatus, hpc⟩ := h
      have hfirst : m.code[s.pc]? = some m.code[s.pc] := List.getElem?_eq_getElem hpc
      rw [record_of_running most hstatus hfirst] at hrunning ⊢
      by_cases hnext : (m.next s).status = .running
      · obtain ⟨hsound, hlt, -⟩ := next_of_running hcapacity (hs hstatus) hstatus hnext
        exact ih (fun _ => hsound) (by omega) hrunning
      · -- the step ended the run, so nothing runs behind it
        rw [record_of_not most fun hnot => hnext hnot.1] at hrunning
        exact absurd hrunning hnext
    · rw [record_of_not (most + 1) h] at hrunning ⊢
      exact Nat.not_lt.1 fun hpc => h ⟨hrunning, hpc⟩

theorem pc_iterate_lt (hcapacity : m.rules.capacity = some Stack.maxItems) (hs : s.Regular)
    {i j : Nat} (hij : i < j) (hrunning : (m.next^[j] s).status = .running) :
    (m.next^[i] s).pc < (m.next^[j] s).pc := by
  induction j with
  | zero => exact absurd hij (Nat.not_lt_zero i)
  | succ j ih =>
    have hbefore := status_of_iterate_next (Nat.le_succ j) hrunning
    rw [Function.iterate_succ_apply'] at hrunning ⊢
    have hregular := (invariant_regular hcapacity).iterate j hs
    obtain ⟨-, hlt, -⟩ := next_of_running hcapacity (hregular hbefore) hbefore hrunning
    rcases Nat.lt_succ_iff_lt_or_eq.1 hij with hlt' | rfl
    · exact Nat.lt_trans (ih hlt' hbefore) hlt
    · exact hlt

theorem trace_fst (s : State) : (m.trace s).1 = (m.record (m.code.length - s.pc) s).1 := rfl

theorem trace_snd (s : State) :
    (m.trace s).2 = m.execute (m.record (m.code.length - s.pc) s).2 := rfl

/-- **A recorded run ends as the run does.** -/
theorem trace_snd_eq_execute (hcapacity : m.rules.capacity = some Stack.maxItems)
    (hs : s.Regular) : (m.trace s).2 = m.execute s := by
  rw [trace_snd, (record_spec _ s).1, execute_iterate hcapacity hs]

theorem execute_unclosed (hcapacity : m.rules.capacity = some Stack.maxItems) (hs : s.Regular)
    (hrunning : s.status = .running) (hend : m.code.length ≤ s.pc) (hframes : s.frames ≠ []) :
    m.execute s = (.error .unbalancedConditional,
      { s with status := .failed .unbalancedConditional }) := by
  have hnext := next_at_end hrunning hend
  rw [if_neg hframes] at hnext
  have hone : m.next^[1] s = { s with status := .failed .unbalancedConditional } := hnext
  rw [execute_eq_of_halted hcapacity hs (k := 1) (by rw [hone]; simp), hone]
  rfl

/-! ### What the entries show -/

section

variable {entries : List TraceStep} {i : Nat}

theorem Noted.stack_of_ok (hnoted : m.Noted s entries) (h : i < entries.length)
    (hstep : m.step (m.next^[i] s) = .ok () t) : entries[i].stack = t.main := by
  obtain ⟨-, first, -, hentry⟩ := hnoted i h
  rw [hentry, shown, hstep]

theorem Noted.stack_of_error {fault : Fault} (hnoted : m.Noted s entries)
    (h : i < entries.length) (hstep : m.step (m.next^[i] s) = .error fault t) :
    entries[i].stack = (m.next^[i] s).main := by
  obtain ⟨-, first, -, hentry⟩ := hnoted i h
  rw [hentry, shown, hstep]

/-- A step that fails leaves nothing running, so no entry can follow its own. -/
theorem Noted.last_of_error {fault : Fault} (hnoted : m.Noted s entries)
    (h : i < entries.length) (hstep : m.step (m.next^[i] s) = .error fault t) :
    i + 1 = entries.length := by
  refine Nat.le_antisymm h (Nat.not_lt.1 fun hnext => ?_)
  have hrunning := (hnoted (i + 1) hnext).1
  rw [Function.iterate_succ_apply', next_of_step_error hstep, status_of_step_error hstep]
    at hrunning
  exact absurd hrunning (by simp)

theorem Noted.stack_pred (hnoted : m.Noted s entries) (h : i + 1 < entries.length) :
    entries[i].stack = (m.next^[i + 1] s).main := by
  have hi : i < entries.length := Nat.lt_of_succ_lt h
  cases hbefore : m.step (m.next^[i] s) with
  | ok _ u => rw [hnoted.stack_of_ok hi hbefore, Function.iterate_succ_apply',
      next_of_step_ok hbefore]
  | error fault u => exact absurd (hnoted.last_of_error hi hbefore) (Nat.ne_of_lt h)

theorem Noted.offset_lt (hcapacity : m.rules.capacity = some Stack.maxItems) (hs : s.Regular)
    (hnoted : m.Noted s entries) : entries.Pairwise fun a b => a.offset < b.offset := by
  rw [List.pairwise_iff_getElem]
  intro i j hi hj hij
  obtain ⟨-, first, -, hentry_i⟩ := hnoted i hi
  obtain ⟨hrunning, first', -, hentry_j⟩ := hnoted j hj
  rw [hentry_i, hentry_j]
  exact pc_iterate_lt hcapacity hs hij hrunning

/-- If the machine has reached the end of the code behind the entries, then all its steps inside
the code are among them. -/
theorem lt_length_of_running (hcapacity : m.rules.capacity = some Stack.maxItems)
    (hs : s.Regular)
    (hcomplete : (m.next^[entries.length] s).status = .running →
      m.code.length ≤ (m.next^[entries.length] s).pc)
    (hrunning : (m.next^[i] s).status = .running) (hpc : (m.next^[i] s).pc < m.code.length) :
    i < entries.length := by
  by_contra hmissing
  have hle : entries.length ≤ i := Nat.not_lt.1 hmissing
  have hend := hcomplete (status_of_iterate_next hle hrunning)
  rcases Nat.lt_or_eq_of_le hle with hlt | heq
  · have hgrown := pc_iterate_lt hcapacity hs hlt hrunning
    omega
  · rw [heq] at hend
    omega

end

/-- **The record tells truly and completely of the run.** -/
theorem recording_trace (hcapacity : m.rules.capacity = some Stack.maxItems) (hs : s.Regular) :
    m.Recording s (m.trace s).1 := by
  have hmost : m.code.length ≤ s.pc + (m.code.length - s.pc) := by omega
  obtain ⟨hlast, hnoted⟩ := record_spec (m.code.length - s.pc) s
  have hcomplete := record_complete hcapacity hs hmost
  rw [hlast] at hcomplete
  rw [← trace_fst] at hnoted hcomplete
  refine ⟨fun i h => ?_, fun i => lt_length_of_running hcapacity hs hcomplete,
    fun i h t => hnoted.stack_of_ok h, fun i h fault t hstep => ?_,
    hnoted.offset_lt hcapacity hs, fun hrunning hframes => ?_⟩
  · obtain ⟨hrunning, first, hfirst, hentry⟩ := hnoted i h
    exact ⟨hrunning, by rw [hentry], first, hfirst, by rw [hentry]⟩
  · refine ⟨hnoted.last_of_error h hstep, hnoted.stack_of_error h hstep, fun hpos => ?_⟩
    cases i with
    | zero => exact absurd hpos (Nat.lt_irrefl 0)
    | succ i => exact (hnoted.stack_pred h).trans (hnoted.stack_of_error h hstep).symm
  · rw [← execute_iterate hcapacity hs (m.trace s).1.length]
    exact execute_unclosed hcapacity ((invariant_regular hcapacity).iterate _ hs) hrunning
      (hcomplete hrunning) hframes

/-- **A recorded run is the run.**  From every state that a machine reaches by single steps, both
have the same answer and end in the same state, and the record is true. -/
theorem trace_recording {primitives : Primitives} {digest : Digest} {code : Bytes}
    (hload : Machine.load primitives digest code = .ok m) (n : Nat) :
    (m.trace (m.next^[n] {})).2 = m.execute (m.next^[n] {}) ∧
      m.Recording (m.next^[n] {}) (m.trace (m.next^[n] {})).1 := by
  have hcapacity := capacity_of_load hload
  have hregular := (invariant_regular hcapacity).iterate n regular_start
  exact ⟨trace_snd_eq_execute hcapacity hregular, recording_trace hcapacity hregular⟩

/-- An item is looked for below the only one, which told how deep: the machine has lost it, but the
record shows it still. -/
theorem trace_recording_pick :
    ∃ m, Machine.load .standard .zero [0x01, 0x01, 0x79] = .ok m ∧
      m.Recording {} [⟨0, "PUSH", [[1]]⟩, ⟨2, "OP_PICK", [[1]]⟩] ∧
      (m.trace {}).2 = m.execute {} ∧
      (m.execute {}).1 = .error .badStackOperation ∧ (m.execute {}).2.main = [] := by
  have hload : Machine.load .standard .zero [0x01, 0x01, 0x79] = .ok _ := load_eq (by decide)
  obtain ⟨hend, hrecording⟩ := trace_recording hload 0
  have htrace : (Machine.trace ⟨[0x01, 0x01, 0x79], .zero, .standard, .standard, by decide⟩ {}).1 =
      [⟨0, "PUSH", [[1]]⟩, ⟨2, "OP_PICK", [[1]]⟩] := by decide +kernel
  exact ⟨_, hload, htrace ▸ hrecording, hend, rfl, rfl⟩

end Machine

end SpendScript
