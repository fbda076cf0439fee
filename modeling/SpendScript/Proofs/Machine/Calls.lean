import SpendScript.Proofs.Machine.Move

/-!
# Calls on a machine

A machine is driven from outside, by single steps and by runs to the end, with or without somebody
who may stop them and with or without a record of the steps (`Machine.Call`).  All of these do
nothing but make steps and, when asked to stop, end the run; so what is kept by both is kept by
every sequence of calls.

* `Machine.Invariant.calls` : an invariant of single steps holds after all calls;
* `Machine.status_execute` : a run to the end does end;
* `Machine.execute_iterate` : in the same way wherever it is taken up again.
-/

namespace SpendScript

/-- A state that was stopped from outside. -/
def State.cancelled (s : State) : State :=
  { s with status := .failed .cancelled }

/-- A machine that runs is in a sound state. -/
def State.Regular (s : State) : Prop :=
  s.status = .running → s.Sound

namespace Machine

/-- The ways to drive a machine. -/
inductive Call
  /-- A single step. -/
  | step
  /-- A run to the end. -/
  | execute
  /-- A run to the end, with the answers to the question whether to stop. -/
  | executeUntil (stop : Nat → Bool)
  /-- A recorded run to the end. -/
  | trace

variable (m : Machine)

/-- The state that a call leaves. -/
def call (s : State) : Call → State
  | .step => m.next s
  | .execute => (m.execute s).2
  | .executeUntil stop => (m.executeUntil stop s).2
  | .trace => (m.trace s).2.2

/-- The state that calls leave, one after the other. -/
def calls (cs : List Call) (s : State) : State :=
  cs.foldl m.call s

/-- A property of states that a running machine keeps when it makes a step and when it is
stopped. -/
structure Invariant (P : State → Prop) : Prop where
  /-- Steps keep it. -/
  next : ∀ s, s.status = .running → P s → P (m.next s)
  /-- Being stopped keeps it. -/
  cancelled : ∀ s, s.status = .running → P s → P s.cancelled

variable {m} {P : State → Prop} {s : State}

namespace Invariant

variable (h : m.Invariant P)

include h

theorem step (hs : P s) : P (m.next s) := by
  by_cases hrunning : s.status = .running
  · exact h.next s hrunning hs
  · rwa [next_of_halted hrunning]

theorem iterate (n : Nat) (hs : P s) : P (m.next^[n] s) := by
  induction n generalizing s with
  | zero => exact hs
  | succ n ih => exact ih (h.step hs)

theorem runUntil (stop : Nat → Bool) (most question : Nat) (hs : P s) :
    P (m.runUntil stop most question s) := by
  induction most generalizing question s with
  | zero => exact hs
  | succ most ih =>
    rw [Machine.runUntil]
    by_cases hrunning : s.isRunning
    · rw [if_neg (by simp [hrunning])]
      split
      · exact h.cancelled s (isRunning_iff.1 hrunning) hs
      · exact ih (question + 1) (h.step hs)
    · rwa [if_pos (by simp [hrunning])]

theorem record (most : Nat) (hs : P s) : P (m.record most s).2 := by
  induction most generalizing s with
  | zero => exact hs
  | succ most ih =>
    have hnext := h.step hs
    rw [Machine.record]
    split
    · unfold Machine.next at hnext
      cases hstep : m.step s with
      | ok _ t =>
        rw [hstep] at hnext
        exact ih hnext
      | error fault t =>
        rw [hstep] at hnext
        exact ih hnext
    · exact hs

theorem call (c : Call) (hs : P s) : P (m.call s c) := by
  cases c with
  | step => exact h.step hs
  | execute => exact h.runUntil _ _ _ hs
  | executeUntil stop => exact h.runUntil stop _ _ hs
  | trace => exact h.runUntil _ _ _ (h.record _ hs)

/-- **An invariant holds after all calls.** -/
theorem calls (cs : List Call) (hs : P s) : P (m.calls cs s) := by
  induction cs generalizing s with
  | nil => exact hs
  | cons c cs ih => exact ih (h.call c hs)

end Invariant

theorem calls_replicate_step (k : Nat) (s : State) :
    m.calls (List.replicate k .step) s = m.next^[k] s := by
  induction k generalizing s with
  | zero => rfl
  | succ k ih => exact ih (m.next s)

/-! ### Runs to the end -/

theorem runUntil_false (most question : Nat) (s : State) :
    m.runUntil (fun _ => false) most question s = m.next^[most] s := by
  induction most generalizing question s with
  | zero => rfl
  | succ most ih =>
    rw [Machine.runUntil]
    by_cases hrunning : s.isRunning
    · rw [if_neg (by simp [hrunning]), if_neg (by simp), ih]
      rfl
    · have hhalted : s.status ≠ .running := fun hs => hrunning (isRunning_iff.2 hs)
      rw [if_pos (by simp [hrunning]), iterate_next_of_halted hhalted]

/-- A run to the end is a number of steps. -/
theorem execute_eq (s : State) : (m.execute s).2 = m.next^[m.stepsLeft s] s :=
  runUntil_false _ _ _

theorem reads_of_running (hcapacity : m.rules.capacity = some Stack.maxItems) (hs : s.Sound)
    (hrunning : s.status = .running) (hnext : (m.next s).status = .running) :
    ∃ i, m.Reads s i ∧ (m.next s).Sound ∧ (m.next s).pc = s.pc + i.bytes.length := by
  have hmove := move (m := m) hrunning
  generalize m.next s = t at hmove hnext
  cases hmove with
  | finish | unclosed | cut | fault | crowded => exact absurd hnext (by simp)
  | @onward i _ hreads hobey =>
    have houtcome := hreads.obeyed hcapacity hs
    rw [hobey] at houtcome
    obtain ⟨hchange, hfits, -⟩ := houtcome
    exact ⟨i, hreads, hchange.sound hfits, hchange.pc_eq⟩

theorem next_of_running (hcapacity : m.rules.capacity = some Stack.maxItems) (hs : s.Sound)
    (hrunning : s.status = .running) (hnext : (m.next s).status = .running) :
    (m.next s).Sound ∧ s.pc < (m.next s).pc ∧ (m.next s).pc ≤ m.code.length := by
  obtain ⟨i, hreads, hsound, hpc⟩ := reads_of_running hcapacity hs hrunning hnext
  have hpos := Instruction.length_bytes_pos i
  have hle := hreads.pc_add_le
  exact ⟨hsound, by omega, by omega⟩

theorem status_iterate_next (hcapacity : m.rules.capacity = some Stack.maxItems) (hs : s.Sound)
    {n : Nat} (hpos : 0 < n) (hn : m.code.length < s.pc + n) :
    (m.next^[n] s).status ≠ .running := by
  -- the bound is kept because a machine that goes on has moved by at least one byte
  induction n generalizing s with
  | zero => exact absurd hpos (Nat.lt_irrefl 0)
  | succ n ih =>
    rw [Function.iterate_succ_apply]
    by_cases hnext : (m.next s).status = .running
    · have hrunning : s.status = .running := by
        by_contra hhalted
        exact hhalted (next_of_halted hhalted ▸ hnext)
      obtain ⟨hsound, hlt, hle⟩ := next_of_running hcapacity hs hrunning hnext
      exact ih hsound (by omega) (by omega)
    · rwa [iterate_next_of_halted hnext]

/-- **A run to the end does end.** -/
theorem status_execute (hcapacity : m.rules.capacity = some Stack.maxItems) (hs : s.Sound) :
    (m.execute s).2.status ≠ .running := by
  rw [execute_eq]
  refine status_iterate_next hcapacity hs (Nat.succ_pos _) ?_
  simp only [stepsLeft]
  omega

/-! ### The state that a run ends in -/

theorem regular_start : State.Regular {} := by
  intro _
  exact ⟨Stack.bounded_nil, Stack.bounded_nil, Nat.zero_le _⟩

theorem invariant_regular (hcapacity : m.rules.capacity = some Stack.maxItems) :
    m.Invariant State.Regular where
  next _ hs h := fun hnext => (next_of_running hcapacity (h hs) hs hnext).1
  cancelled _ _ _ := fun hs => absurd hs (by simp [State.cancelled])

theorem status_stepsLeft (hcapacity : m.rules.capacity = some Stack.maxItems) (hs : s.Regular) :
    (m.next^[m.stepsLeft s] s).status ≠ .running := by
  by_cases hrunning : s.status = .running
  · rw [← execute_eq]
    exact status_execute hcapacity (hs hrunning)
  · rwa [iterate_next_of_halted hrunning]

theorem iterate_next_add (j k : Nat) (s : State) :
    m.next^[k] (m.next^[j] s) = m.next^[j + k] s := by
  rw [Nat.add_comm, Function.iterate_add_apply]

theorem iterate_next_eq_of_le {j k : Nat} (hj : (m.next^[j] s).status ≠ .running) (h : j ≤ k) :
    m.next^[k] s = m.next^[j] s := by
  obtain ⟨l, rfl⟩ := Nat.exists_eq_add_of_le h
  rw [← iterate_next_add, iterate_next_of_halted hj]

theorem status_of_iterate_next {j k : Nat} (h : j ≤ k) (hk : (m.next^[k] s).status = .running) :
    (m.next^[j] s).status = .running := by
  by_contra hj
  rw [iterate_next_eq_of_le hj h] at hk
  exact hj hk

theorem iterate_next_unique {j k : Nat} (hj : (m.next^[j] s).status ≠ .running)
    (hk : (m.next^[k] s).status ≠ .running) : m.next^[j] s = m.next^[k] s := by
  rcases Nat.le_total j k with h | h
  · exact (iterate_next_eq_of_le hj h).symm
  · exact iterate_next_eq_of_le hk h

theorem execute_eq_of_halted (hcapacity : m.rules.capacity = some Stack.maxItems)
    (hs : s.Regular) {k : Nat} (hk : (m.next^[k] s).status ≠ .running) :
    m.execute s = ((m.next^[k] s).answer, m.next^[k] s) := by
  have hlast : (m.execute s).2 = m.next^[k] s := by
    rw [execute_eq]
    exact iterate_next_unique (status_stepsLeft hcapacity hs) hk
  rw [← hlast]
  rfl

/-- **A run that is taken up again ends as the whole run does.** -/
theorem execute_iterate (hcapacity : m.rules.capacity = some Stack.maxItems) (hs : s.Regular)
    (j : Nat) : m.execute (m.next^[j] s) = m.execute s := by
  have hj : (m.next^[j] s).Regular := (invariant_regular hcapacity).iterate j hs
  have hend := status_stepsLeft hcapacity hj
  have hwhole := hend
  rw [iterate_next_add] at hwhole
  rw [execute_eq_of_halted hcapacity hj hend, execute_eq_of_halted hcapacity hs hwhole,
    iterate_next_add]

end Machine

end SpendScript
