import Mathlib.Data.Nat.Find
import SpendScript.Crypto.ScriptSignature
import SpendScript.Proofs.Machine.Recording

/-!
# Driving a machine

Whoever drives a machine chooses in what order to step it, run it, record it or stop it.  The order
has no influence on what happens: calls leave the state that some number of single steps leaves,
unless the machine was stopped while it ran (`Machine.Stopped`), and then that state with the fault
of being stopped.

* `Machine.executeUntil_of_stops`, `Machine.executeUntil_of_not_stops` : the two ways in which a run
  that may be stopped comes out;
* `Machine.calls_of_stopped`, `Machine.calls_of_not_stopped` : the same for many calls;
* `Machine.final_of_halted` : a machine that has ended stays as it is and repeats its answer;
* `Machine.driven_calls` : all of this for a machine that was just loaded (`Machine.Driven`).
-/

namespace SpendScript

namespace Machine

variable (m : Machine)

/-- In this call the machine is told to stop while it runs: before step `i`, and not before an
earlier one. -/
def Stops (s : State) : Call → Prop
  | .executeUntil stop =>
    ∃ i, stop i = true ∧ (∀ j < i, stop j = false) ∧ (m.next^[i] s).status = .running
  | _ => False

/-- In one of these calls the machine is told to stop while it runs. -/
def Stopped : List Call → State → Prop
  | [], _ => False
  | c :: cs, s => m.Stops s c ∨ Stopped cs (m.call s c)

/-- A state that no call changes, and in which every call gives the answer of the run again. -/
structure Final (s : State) : Prop where
  /-- No calls change it. -/
  calls_eq : ∀ cs, m.calls cs s = s
  /-- Behind a run that succeeded, a step succeeds, and every run has its verdict. -/
  of_succeeded : s.status = .succeeded →
    m.step s = .ok () s ∧ ∀ stop, m.executeUntil stop s = (.ok s.verdict, s)
  /-- Behind a run that failed, a step and every run fail in the same way. -/
  of_failed : ∀ fault, s.status = .failed fault →
    m.step s = .error fault s ∧ ∀ stop, m.executeUntil stop s = (.error fault, s)
  /-- A recorded run records nothing. -/
  trace_eq : m.trace s = ([], m.execute s)

/-- What calls on a machine that was just loaded come to. -/
structure Driven (cs : List Call) (s : State) : Prop where
  /-- They leave what single steps leave, … -/
  of_not_stopped : ¬ m.Stopped cs {} → ∃ k, s = m.next^[k] {}
  /-- … but if the machine was told to stop, the fault of being stopped instead of running on. -/
  of_stopped : m.Stopped cs {} →
    ∃ k, (m.next^[k] {}).status = .running ∧ s = (m.next^[k] {}).cancelled
  /-- A machine that has ended has ended for good. -/
  final : s.status ≠ .running → m.Final s
  /-- A machine that was not told to stop ends within the bytes that are left and one step, and
  every run comes out as a run from the start does. -/
  ends : ¬ m.Stopped cs {} → ∃ n ≤ m.code.length - s.pc + 1,
    (∀ i < n, (m.next^[i] s).status = .running) ∧ (m.next^[n] s).status ≠ .running ∧
      m.execute {} = ((m.next^[n] s).answer, m.next^[n] s) ∧
      m.execute s = m.execute {} ∧
      (∀ stop, ¬ m.Stops s (.executeUntil stop) → m.executeUntil stop s = m.execute {}) ∧
      (m.trace s).2 = m.execute {} ∧ (m.trace s).1.length ≤ n

variable {m} {s : State} {c : Call} {cs : List Call} {stop : Nat → Bool}

/-! ### One call -/

theorem runUntil_of_stop {i most : Nat} (question : Nat) (hi : i < most)
    (hstop : stop (question + i) = true) (hbefore : ∀ j < i, stop (question + j) = false)
    (hrunning : (m.next^[i] s).status = .running) :
    m.runUntil stop most question s = (m.next^[i] s).cancelled := by
  have hs : s.isRunning := isRunning_iff.2 (status_of_iterate_next (Nat.zero_le i) hrunning)
  obtain ⟨most, rfl⟩ := Nat.exists_eq_add_one_of_ne_zero (Nat.ne_zero_of_lt hi)
  induction i generalizing most question s with
  | zero =>
    have hnow : stop question = true := hstop
    rw [runUntil, if_neg (by simp [hs]), if_pos hnow]
    rfl
  | succ i ih =>
    have hgo : stop question = false := hbefore 0 (Nat.succ_pos i)
    rw [runUntil, if_neg (by simp [hs]), if_neg (by simp [hgo])]
    rw [Function.iterate_succ_apply] at hrunning ⊢
    have hmost : i < most := Nat.lt_of_succ_lt_succ hi
    obtain ⟨most, rfl⟩ := Nat.exists_eq_add_one_of_ne_zero (Nat.ne_zero_of_lt hmost)
    refine ih (question + 1) ?_ ?_ hrunning ?_ most hmost
    · rw [← hstop]
      congr 1
      omega
    · intro j hj
      rw [← hbefore (j + 1) (Nat.succ_lt_succ hj)]
      congr 1
      omega
    · exact isRunning_iff.2 (status_of_iterate_next (Nat.zero_le i) hrunning)

theorem runUntil_of_no_stop {most : Nat} (question : Nat)
    (h : ∀ i, (m.next^[i] s).status = .running → stop (question + i) = false) :
    m.runUntil stop most question s = m.next^[most] s := by
  induction most generalizing question s with
  | zero => rfl
  | succ most ih =>
    by_cases hs : s.status = .running
    · have hgo : stop question = false := h 0 hs
      rw [runUntil, if_neg (by simp [isRunning_iff.2 hs]), if_neg (by simp [hgo])]
      refine ih (question + 1) fun i hi => ?_
      rw [← h (i + 1) hi]
      congr 1
      omega
    · rw [runUntil, if_pos (by simpa using mt isRunning_iff.1 hs), iterate_next_of_halted hs]

theorem stop_eq_false_of_not_stops (h : ¬ m.Stops s (.executeUntil stop)) (i : Nat)
    (hrunning : (m.next^[i] s).status = .running) : stop i = false := by
  induction i using Nat.strong_induction_on with
  | _ i ih =>
    by_contra hstop
    refine h ⟨i, eq_true_of_ne_false hstop, fun j hj => ?_, hrunning⟩
    exact ih j hj (status_of_iterate_next (Nat.le_of_lt hj) hrunning)

/-- **A run that is told to stop** ends in the state that it has reached. -/
theorem executeUntil_of_stops (hcapacity : m.rules.capacity = some Stack.maxItems)
    (hs : s.Regular) (h : m.Stops s (.executeUntil stop)) :
    ∃ i, (m.next^[i] s).status = .running ∧
      m.executeUntil stop s = (.error .cancelled, (m.next^[i] s).cancelled) := by
  obtain ⟨i, hstop, hbefore, hrunning⟩ := h
  have hi : i < m.stepsLeft s := by
    by_contra hle
    exact status_stepsLeft hcapacity hs (status_of_iterate_next (Nat.not_lt.1 hle) hrunning)
  have hlast : m.runUntil stop (m.stepsLeft s) 0 s = (m.next^[i] s).cancelled :=
    runUntil_of_stop 0 hi (by simpa using hstop) (by simpa using hbefore) hrunning
  refine ⟨i, hrunning, ?_⟩
  rw [executeUntil, hlast]
  rfl

/-- **A run that is not told to stop** is a run. -/
theorem executeUntil_of_not_stops (h : ¬ m.Stops s (.executeUntil stop)) :
    m.executeUntil stop s = m.execute s := by
  have hgo : ∀ i, (m.next^[i] s).status = .running → stop (0 + i) = false := by
    intro i hi
    rw [Nat.zero_add]
    exact stop_eq_false_of_not_stops h i hi
  rw [execute, executeUntil, executeUntil, runUntil_of_no_stop 0 hgo, runUntil_false]

theorem call_of_stops (hcapacity : m.rules.capacity = some Stack.maxItems) (hs : s.Regular)
    (h : m.Stops s c) :
    ∃ i, (m.next^[i] s).status = .running ∧ m.call s c = (m.next^[i] s).cancelled := by
  cases c with
  | executeUntil stop =>
    obtain ⟨i, hrunning, hend⟩ := executeUntil_of_stops hcapacity hs h
    exact ⟨i, hrunning, by rw [call, hend]⟩
  | step | execute | trace => exact h.elim

theorem call_of_not_stops (h : ¬ m.Stops s c) : ∃ i, m.call s c = m.next^[i] s := by
  cases c with
  | step => exact ⟨1, rfl⟩
  | execute => exact ⟨_, execute_eq s⟩
  | executeUntil stop =>
    refine ⟨m.stepsLeft s, ?_⟩
    rw [call, executeUntil_of_not_stops h, execute_eq]
  | trace =>
    -- the steps that are recorded, and those of the run behind them
    have hlast := execute_eq (m := m) (m.record (m.code.length - s.pc) s).2
    rw [(record_spec _ s).1, iterate_next_add] at hlast
    refine ⟨_, Eq.trans ?_ hlast⟩
    rw [call, trace_snd, (record_spec _ s).1]

/-! ### Many calls -/

theorem calls_cons (c : Call) (cs : List Call) (s : State) :
    m.calls (c :: cs) s = m.calls cs (m.call s c) := rfl

/-- A property of one state is an invariant if the machine has ended there. -/
theorem invariant_eq_of_halted (hs : s.status ≠ .running) : m.Invariant (· = s) where
  next _ ht heq := absurd (heq ▸ ht) hs
  cancelled _ ht heq := absurd (heq ▸ ht) hs

/-- **Calls in which the machine is told to stop** leave the state that it had reached by then. -/
theorem calls_of_stopped (hcapacity : m.rules.capacity = some Stack.maxItems) (hs : s.Regular)
    (h : m.Stopped cs s) :
    ∃ k, (m.next^[k] s).status = .running ∧ m.calls cs s = (m.next^[k] s).cancelled := by
  induction cs generalizing s with
  | nil => exact h.elim
  | cons c cs ih =>
    have hcall : (m.call s c).Regular := (invariant_regular hcapacity).call c hs
    rcases Classical.em (m.Stops s c) with hc | hc
    · obtain ⟨i, hrunning, hi⟩ := call_of_stops hcapacity hs hc
      have hhalted : (m.call s c).status ≠ .running := by
        rw [hi]
        simp [State.cancelled]
      refine ⟨i, hrunning, ?_⟩
      rw [calls_cons, ← hi]
      exact (invariant_eq_of_halted hhalted).calls cs rfl
    · obtain ⟨i, hi⟩ := call_of_not_stops hc
      obtain ⟨k, hrunning, hk⟩ := ih hcall (h.resolve_left hc)
      rw [hi, iterate_next_add] at hrunning hk
      refine ⟨i + k, hrunning, ?_⟩
      rw [calls_cons, hi, hk]

/-- **Calls in which the machine is not told to stop** leave what single steps leave. -/
theorem calls_of_not_stopped (h : ¬ m.Stopped cs s) : ∃ k, m.calls cs s = m.next^[k] s := by
  induction cs generalizing s with
  | nil => exact ⟨0, rfl⟩
  | cons c cs ih =>
    rcases not_or.1 h with ⟨hc, hcs⟩
    obtain ⟨i, hi⟩ := call_of_not_stops hc
    obtain ⟨k, hk⟩ := ih hcs
    rw [hi, iterate_next_add] at hk
    refine ⟨i + k, ?_⟩
    rw [calls_cons, hi, hk]

/-! ### The end -/

/-- **A machine that has ended has ended for good.** -/
theorem final_of_halted (hs : s.status ≠ .running) : m.Final s := by
  have hinvariant := invariant_eq_of_halted (m := m) hs
  have hend : ∀ stop, m.executeUntil stop s = (s.answer, s) := by
    intro stop
    rw [executeUntil, hinvariant.runUntil stop _ 0 rfl]
  refine ⟨fun cs => hinvariant.calls cs rfl, fun hstatus => ⟨?_, fun stop => ?_⟩,
    fun fault hstatus => ⟨?_, fun stop => ?_⟩, ?_⟩
  · rw [step, hstatus]
  · rw [hend, State.answer, hstatus]
  · rw [step, hstatus]
  · rw [hend, State.answer, hstatus]
  · rw [trace, record_of_not _ fun hnot => hs hnot.1]

theorem exists_first_halted (hcapacity : m.rules.capacity = some Stack.maxItems)
    (hs : s.Regular) : ∃ n ≤ m.stepsLeft s,
      (∀ i < n, (m.next^[i] s).status = .running) ∧ (m.next^[n] s).status ≠ .running := by
  have hexists : ∃ n, (m.next^[n] s).status ≠ .running := ⟨_, status_stepsLeft hcapacity hs⟩
  refine ⟨Nat.find hexists, Nat.find_min' hexists (status_stepsLeft hcapacity hs), ?_,
    Nat.find_spec hexists⟩
  intro i hi
  exact not_not.1 (Nat.find_min hexists hi)

theorem length_trace_le {n : Nat} (hn : (m.next^[n] s).status ≠ .running) :
    (m.trace s).1.length ≤ n := by
  by_contra hlt
  have hnotes := (record_spec (m.code.length - s.pc) s).2 n (Nat.not_le.1 hlt)
  exact hn hnotes.1

/-- **The order of calls does not matter, and what has ended stays so.**  Whatever is called on a
machine that was just loaded, it is where single steps would have led, or was stopped there. -/
theorem driven_calls {primitives : Primitives} {digest : Digest} {code : Bytes}
    (hload : Machine.load primitives digest code = .ok m) (cs : List Call) :
    m.Driven cs (m.calls cs {}) := by
  have hcapacity := capacity_of_load hload
  refine ⟨calls_of_not_stopped, calls_of_stopped hcapacity regular_start, final_of_halted, ?_⟩
  intro hstopped
  obtain ⟨k, hk⟩ := calls_of_not_stopped hstopped
  rw [hk]
  have hregular := (invariant_regular hcapacity).iterate k regular_start
  have hwhole := execute_iterate (m := m) hcapacity regular_start k
  obtain ⟨n, hn, hbefore, hhalted⟩ := exists_first_halted hcapacity hregular
  refine ⟨n, hn, hbefore, hhalted, ?_, hwhole, fun stop hstop => ?_, ?_, length_trace_le hhalted⟩
  · rw [← hwhole]
    exact execute_eq_of_halted hcapacity hregular hhalted
  · rw [executeUntil_of_not_stops hstop, hwhole]
  · rw [trace_snd_eq_execute hcapacity hregular, hwhole]

/-- A machine is stopped in the middle of a run that follows a step, and a recorded run comes too
late; without the run in between, it would have made the two steps that were left. -/
theorem driven_calls_stopped :
    ∃ m, Machine.load .standard .zero [0x01, 0x01, 0x76] = .ok m ∧
      m.Stopped [.step, .executeUntil (· == 1), .trace] {} ∧
      m.calls [.step, .executeUntil (· == 1), .trace] {} = (m.next^[2] {}).cancelled ∧
      m.Final (m.calls [.step, .executeUntil (· == 1), .trace] {}) ∧
      ¬ m.Stopped [.step, .trace] {} ∧ m.execute (m.calls [.step] {}) = m.execute {} := by
  have hload : Machine.load .standard .zero [0x01, 0x01, 0x76] = .ok _ := load_eq (by decide)
  refine ⟨_, hload, ?_, ?_, ?_, ?_, ?_⟩
  · refine .inr (.inl ⟨1, rfl, fun j hj => ?_, rfl⟩)
    rw [Nat.lt_one_iff.1 hj]
    rfl
  · decide +kernel
  · exact (driven_calls hload _).final (by decide +kernel)
  · rintro (h | h | h) <;> exact h
  · obtain ⟨-, -, -, -, -, hrun, -⟩ := (driven_calls hload [.step]).ends fun h => h.elim id id
    exact hrun

end Machine

end SpendScript
