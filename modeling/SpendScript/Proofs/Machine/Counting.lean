import SpendScript.Crypto.ScriptSignature
import SpendScript.Proofs.Machine.Faults
import SpendScript.Proofs.Machine.Follow

/-!
# Counting operations

Whether an instruction counts as an operation can be seen from its first byte alone
(`countsAsOperation`).  So what a machine has counted follows from the first bytes of the
instructions that it has read (`Machine.firstBytes`), and these are the same in every run that gets
as far through the same code, whatever is on the stacks.

* `isFree_read` : pushes, constants and the reserved word among these are free, and all else counts;
* `Machine.opCount_next`, `Machine.opCount_iterate` : what one step and what a run counts;
* `Machine.firstBytes_isPrefix` : a run reads what a walk through the code finds;
* `Machine.execute_eq_opCount_iff` : a run fails for the number of operations iff it comes to one
  too many (`Machine.Exceeds`);
* `Machine.counts_of_load` : all this of a machine that some code was loaded into
  (`Machine.Counts`).
-/

namespace SpendScript

open Instruction (operations scan scanFrom)

/-- An instruction with this first byte counts as an operation. -/
def countsAsOperation (first : UInt8) : Bool :=
  0x60 < first

/-- The instruction is a push, a constant, or the reserved word among the constants. -/
def Instruction.isFree : Instruction → Bool
  | .push _ _ | .operation (.constant _) | .operation (.reserved .plain) => true
  | _ => false

/-- What was read is free; a push is so even if it is cut off. -/
def Fetched.isFree : Fetched → Bool
  | .complete i _ => i.isFree
  | .truncated _ => true

/-! ### First bytes -/

section

variable {i : Instruction} {first : UInt8} {rest : Bytes} {size : Nat}

theorem Instruction.length_bytes_of_isCounted (hi : i.Readable) (h : i.isCounted = true) :
    i.bytes.length = 1 := by
  cases i with
  | push form data => exact absurd (isCounted_eq_false hi rfl) (by simp [h])
  | operation op => rfl
  | unassigned byte => rfl

theorem Instruction.isFree_eq (hi : i.Readable) : i.isFree = !i.isCounted := by
  cases i with
  | push form data => rw [isCounted_eq_false hi rfl]; rfl
  | unassigned byte => rw [isCounted_unassigned hi]; rfl
  | operation op =>
    have hall : ∀ op ∈ Operation.all, (operation op).isFree = !(operation op).isCounted := by
      decide +kernel
    exact hall op (Opcode.mem_allOperations op)

theorem Instruction.opcode_of_read (h : read first rest = .complete i size) :
    i.opcode = first := by
  obtain ⟨-, -, hprefix⟩ := read_eq_complete_iff.1 h
  rw [bytes_eq, List.cons_prefix_cons] at hprefix
  exact hprefix.1

theorem countsAsOperation_of_truncated (h : Instruction.read first rest = .truncated size) :
    countsAsOperation first = false := by
  simp only [countsAsOperation, decide_eq_false_iff_not, UInt8.lt_iff_toNat_lt, Nat.not_lt]
  unfold Instruction.read at h
  split at h
  · exact absurd h (by simp)
  · rename_i width hop
    rw [← Opcode.ofByte?_eq_some_iff.1 hop]
    cases width <;> decide
  · exact absurd h (by simp)
  · split at h
    · rename_i hle
      exact hle.trans (by decide)
    · exact absurd h (by simp)

/-- **Pushes, constants and the reserved word among these are free**, and all else counts. -/
theorem isFree_read (first : UInt8) (rest : Bytes) :
    (Instruction.read first rest).isFree = !countsAsOperation first := by
  cases hread : Instruction.read first rest with
  | truncated size =>
    rw [countsAsOperation_of_truncated hread]
    rfl
  | complete i size =>
    rw [← Instruction.opcode_of_read hread]
    exact Instruction.isFree_eq (Instruction.read_eq_complete_iff.1 hread).1

end

namespace Machine

variable (m : Machine)

/-- The first byte of the instruction that the next step reads, if it reads one. -/
def upcoming? (s : State) : Option UInt8 :=
  if s.isRunning then m.code[s.pc]? else none

/-- The first bytes of the instructions that a number of steps read, in order. -/
def firstBytes : (steps : Nat) → State → List UInt8
  | 0, _ => []
  | steps + 1, s => (m.upcoming? s).toList ++ firstBytes steps (m.next s)

/-- Behind a number of steps the machine stands before an operation and has read as many as it may
before that. -/
def Exceeds (s : State) (steps : Nat) : Prop :=
  (m.firstBytes steps s).countP countsAsOperation = maxOperations ∧
    ∃ first, m.upcoming? (m.next^[steps] s) = some first ∧ countsAsOperation first = true

/-- How a machine counts operations, from the start `s`. -/
structure Counts (s : State) : Prop where
  /-- It counts the instructions with a first byte that counts. -/
  opCount_eq : ∀ n, (m.next^[n] s).opCount = (m.firstBytes n s).countP countsAsOperation
  /-- The instructions that it reads are those of the code, from the first one on. -/
  firstBytes_isPrefix : ∀ n, m.firstBytes n s <+: (scan m.code).map Located.first
  /-- While it runs, every step has read one. -/
  length_firstBytes : ∀ n, (m.next^[n] s).status = .running → (m.firstBytes n s).length = n
  /-- A step that reads a push, a constant or the reserved word among these counts nothing. -/
  free : ∀ n first rest, (m.next^[n] s).status = .running →
    m.code.drop (m.next^[n] s).pc = first :: rest → (Instruction.read first rest).isFree = true →
      (m.next^[n + 1] s).opCount = (m.next^[n] s).opCount
  /-- A step that reads anything else counts one, even if it fails or passes over it. -/
  counted : ∀ n first rest, (m.next^[n] s).status = .running →
    m.code.drop (m.next^[n] s).pc = first :: rest → (Instruction.read first rest).isFree = false →
      (m.next^[n + 1] s).opCount = (m.next^[n] s).opCount + 1
  /-- Nothing but the number of instructions that were read has an influence on the count: any
  machine with the same code has counted the same when it has read as many, whatever was on its
  stacks. -/
  opCount_congr : ∀ (m' : Machine) (main alt : Stack) n n', m'.code = m.code →
    (m'.firstBytes n' { main, alt }).length = (m.firstBytes n s).length →
      (m'.next^[n'] { main, alt }).opCount = (m.next^[n] s).opCount
  /-- An operation too many fails as such, whatever else speaks against it, and leaves the stacks
  and the conditionals as they were. -/
  step_of_exceeds : ∀ n, m.Exceeds s n →
    m.step (m.next^[n] s) = .error .opCount { m.next^[n] s with
      pc := (m.next^[n] s).pc + 1, opCount := 202, status := .failed .opCount }
  /-- A run to the end fails with that iff it comes to such an operation. -/
  execute_iff : (m.execute s).1 = .error .opCount ↔ ∃ n, m.Exceeds s n

variable {m} {s : State} {i : Instruction} {first : UInt8} {rest : Bytes}

theorem upcoming?_of_halted (hs : s.status ≠ .running) : m.upcoming? s = none :=
  if_neg fun h => hs (isRunning_iff.1 h)

theorem upcoming?_of_running (hs : s.status = .running) : m.upcoming? s = m.code[s.pc]? :=
  if_pos (isRunning_iff.2 hs)

theorem firstBytes_of_halted (hs : s.status ≠ .running) (n : Nat) : m.firstBytes n s = [] := by
  induction n with
  | zero => rfl
  | succ n ih =>
    rw [firstBytes, upcoming?_of_halted hs, next_of_halted hs, ih]
    rfl

theorem upcoming?_of_drop (hs : s.status = .running) (hcode : m.code.drop s.pc = first :: rest) :
    m.upcoming? s = some first := by
  rw [upcoming?_of_running hs, ← List.head?_drop, hcode, List.head?_cons]

theorem upcoming?_of_reads (hs : s.status = .running) (hreads : m.Reads s i) :
    m.upcoming? s = some i.opcode := by
  obtain ⟨tail, hcode⟩ := hreads.2
  rw [Instruction.bytes_eq, List.cons_append] at hcode
  exact upcoming?_of_drop hs hcode.symm

/-! ### One step -/

/-- What a running machine reads, and what it has counted behind that: it has come to the end, finds
a push cut off, or reads an instruction, which may fail. -/
theorem read_next (hs : s.status = .running) :
    (m.code.drop s.pc = [] ∧ (m.next s).status ≠ .running ∧ (m.next s).opCount = s.opCount) ∨
    (∃ first rest size, m.code.drop s.pc = first :: rest ∧
      Instruction.read first rest = .truncated size ∧ (m.next s).status ≠ .running ∧
      (m.next s).opCount = s.opCount) ∨
    ∃ i, m.Reads s i ∧ (m.next s).pc = s.pc + i.bytes.length ∧
      (m.next s).opCount = s.opCount + operations [i] := by
  cases hcode : m.code.drop s.pc with
  | nil =>
    refine .inl ⟨rfl, ?_⟩
    rw [next_at_end hs (List.drop_eq_nil_iff.1 hcode)]
    split <;> exact ⟨by simp, rfl⟩
  | cons first rest =>
    cases hread : Instruction.read first rest with
    | truncated size =>
      refine .inr (.inl ⟨first, rest, size, rfl, hread, ?_⟩)
      rw [next_of_cut hs hcode hread]
      exact ⟨by simp, rfl⟩
    | complete i size =>
      obtain ⟨hi, -, hprefix⟩ := Instruction.read_eq_complete_iff.1 hread
      have hreads : m.Reads s i := ⟨hi, hcode ▸ hprefix⟩
      obtain ⟨hpc, hops, -⟩ := pass_spec (m := m) hs hi
      refine .inr (.inr ⟨i, hreads, ?_⟩)
      rw [next_eq_pass hs hreads]
      exact ⟨hpc, hops⟩

/-- **One step counts the instruction that it reads**, if that counts. -/
theorem opCount_next (s : State) :
    (m.next s).opCount = s.opCount + (m.upcoming? s).toList.countP countsAsOperation := by
  by_cases hs : s.status = .running
  · rcases read_next (m := m) hs with ⟨hend, -, hops⟩ |
      ⟨first, rest, size, hcode, hread, -, hops⟩ | ⟨i, hreads, -, hops⟩
    · rw [hops, upcoming?_of_running hs, ← List.head?_drop, hend]
      rfl
    · rw [hops, upcoming?_of_drop hs hcode, Option.toList_some, List.countP_singleton,
        countsAsOperation_of_truncated hread]
      rfl
    · rw [hops, upcoming?_of_reads hs hreads, Instruction.operations_singleton,
        Option.toList_some, List.countP_singleton]
      rfl
  · rw [next_of_halted hs, upcoming?_of_halted hs]
    rfl

/-! ### Runs -/

/-- **A run counts the instructions that it reads.** -/
theorem opCount_iterate (n : Nat) (s : State) :
    (m.next^[n] s).opCount = s.opCount + (m.firstBytes n s).countP countsAsOperation := by
  induction n generalizing s with
  | zero => rfl
  | succ n ih =>
    rw [Function.iterate_succ_apply, ih, opCount_next, firstBytes, List.countP_append,
      Nat.add_assoc]

/-- **A run reads what a walk through the code finds**, and leaves nothing out. -/
theorem firstBytes_isPrefix (n : Nat) (s : State) :
    m.firstBytes n s <+: (scanFrom [] s.pc (m.code.drop s.pc)).map Located.first := by
  induction n generalizing s with
  | zero => exact List.nil_prefix
  | succ n ih =>
    by_cases hs : s.status = .running
    · rw [firstBytes]
      rcases read_next (m := m) hs with ⟨hend, hhalted, -⟩ |
        ⟨first, rest, size, hcode, hread, hhalted, -⟩ | ⟨i, hreads, hpc, -⟩
      · rw [firstBytes_of_halted hhalted, upcoming?_of_running hs, ← List.head?_drop, hend]
        exact List.nil_prefix
      · rw [firstBytes_of_halted hhalted, upcoming?_of_drop hs hcode, hcode,
          Instruction.scanFrom_of_cut hread]
        exact List.prefix_refl _
      · have hfirst := upcoming?_of_reads hs hreads
        obtain ⟨hi, tail, hcode⟩ := hreads
        have htail : m.code.drop (m.next s).pc = tail := by
          rw [hpc, ← List.drop_drop, ← hcode, List.drop_left]
        have hrest := ih (m.next s)
        rw [htail, hpc] at hrest
        rw [hfirst, ← hcode, Instruction.scanFrom_bytes_append hi]
        exact (List.prefix_append_right_inj [i.opcode]).2 hrest
    · rw [firstBytes_of_halted hs]
      exact List.nil_prefix

theorem length_firstBytes {n : Nat} (h : (m.next^[n] s).status = .running) :
    (m.firstBytes n s).length = n := by
  induction n generalizing s with
  | zero => rfl
  | succ n ih =>
    have hnext : (m.next s).status = .running := status_of_iterate_next (Nat.le_add_left 1 n) h
    have hs : s.status = .running := status_of_iterate_next (Nat.zero_le (n + 1)) h
    rw [Function.iterate_succ_apply] at h
    rw [firstBytes, List.length_append, ih h, Nat.add_comm]
    rcases read_next (m := m) hs with ⟨-, hhalted, -⟩ | ⟨first, rest, size, -, -, hhalted, -⟩ |
      ⟨i, hreads, -⟩
    · exact absurd hnext hhalted
    · exact absurd hnext hhalted
    · rw [upcoming?_of_reads hs hreads]
      rfl

theorem firstBytes_congr {m' : Machine} {s' : State} {n n' : Nat} (hcode : m'.code = m.code)
    (hpc : s'.pc = s.pc) (hlen : (m'.firstBytes n' s').length = (m.firstBytes n s).length) :
    m'.firstBytes n' s' = m.firstBytes n s := by
  have h := firstBytes_isPrefix (m := m) n s
  have h' := firstBytes_isPrefix (m := m') n' s'
  rw [hcode, hpc] at h'
  rw [List.prefix_iff_eq_take] at h h'
  rw [h, h', hlen]

/-! ### One operation too many -/

theorem reads_of_upcoming? (h : m.upcoming? s = some first)
    (hcounts : countsAsOperation first = true) :
    s.status = .running ∧ ∃ i, m.Reads s i ∧ i.isCounted = true := by
  have hs : s.status = .running := by
    by_contra hs
    exact absurd ((upcoming?_of_halted hs).symm.trans h) (by simp)
  refine ⟨hs, ?_⟩
  rcases read_next (m := m) hs with ⟨hend, -⟩ | ⟨_, rest, size, hcode, hread, -⟩ |
    ⟨i, hreads, -⟩
  · rw [upcoming?_of_running hs, ← List.head?_drop, hend] at h
    exact absurd h (by simp)
  · obtain rfl := Option.some.inj ((upcoming?_of_drop hs hcode).symm.trans h)
    rw [countsAsOperation_of_truncated hread] at hcounts
    exact absurd hcounts (by simp)
  · obtain rfl := Option.some.inj ((upcoming?_of_reads hs hreads).symm.trans h)
    exact ⟨i, hreads, hcounts⟩

/-- **An operation too many fails as such**, and does nothing else. -/
theorem step_of_spent (h : m.upcoming? s = some first) (hcounts : countsAsOperation first = true)
    (hspent : s.opCount = maxOperations) :
    m.step s = .error .opCount { s with
      pc := s.pc + 1, opCount := maxOperations + 1, status := .failed .opCount } := by
  obtain ⟨hs, i, hreads, hcounted⟩ := reads_of_upcoming? h hcounts
  have hobey := obey_of_spent (m := m) (s := s.behind i) hreads.1 hcounted
    (Nat.le_of_eq hspent.symm)
  rw [step_of_reads_error hs hreads hobey, State.counted, Instruction.operations_singleton,
    if_pos hcounted, State.behind, Instruction.length_bytes_of_isCounted hreads.1 hcounted, hspent]

theorem spent_of_next (hs : s.status = .running) (h : (m.next s).status = .failed .opCount) :
    maxOperations ≤ s.opCount ∧
      ∃ first, m.upcoming? s = some first ∧ countsAsOperation first = true := by
  have hmove := move (m := m) hs
  generalize m.next s = t at hmove h
  cases hmove with
  | finish | unclosed | cut | crowded => exact absurd h (by simp)
  | @fault i fault t hreads hobey =>
    obtain rfl : fault = .opCount := by simpa using h
    obtain ⟨hcounted, hspent⟩ := spent_of_obey hreads.1 hobey
    exact ⟨hspent, i.opcode, upcoming?_of_reads hs hreads, hcounted⟩
  | @onward i t hreads hobey =>
    have hleaves := leaves_obey (m := m) hreads.1 (s.behind i)
    rw [hobey] at hleaves
    exact absurd (h.symm.trans (hleaves.2.1.trans hs)) (by simp)

theorem spent_of_lt (hle : s.opCount ≤ maxOperations) (hlt : maxOperations < (m.next s).opCount) :
    s.opCount = maxOperations ∧
      ∃ first, m.upcoming? s = some first ∧ countsAsOperation first = true := by
  rw [opCount_next] at hlt
  cases hfirst : m.upcoming? s with
  | none => exact absurd hlt (by simpa [hfirst] using hle)
  | some first =>
    rw [hfirst, Option.toList_some, List.countP_singleton] at hlt
    split at hlt
    · exact ⟨by omega, first, rfl, ‹_›⟩
    · exact absurd hle (Nat.not_le.2 hlt)

/-- A machine has failed for the number of operations iff it has counted too many. -/
def Watches (s : State) : Prop :=
  s.status = .failed .opCount ↔ maxOperations < s.opCount

theorem le_of_watches (h : Watches s) (hs : s.status = .running) : s.opCount ≤ maxOperations :=
  Nat.not_lt.1 fun hlt => absurd (hs.symm.trans (h.2 hlt)) (by simp)

theorem invariant_watches : m.Invariant Watches where
  next s hs h := by
    have hle := le_of_watches h hs
    constructor
    · intro hfailed
      obtain ⟨hspent, first, hfirst, hcounts⟩ := spent_of_next hs hfailed
      rw [next, step_of_spent hfirst hcounts (Nat.le_antisymm hle hspent)]
      exact Nat.lt_succ_self _
    · intro hlt
      obtain ⟨hspent, first, hfirst, hcounts⟩ := spent_of_lt hle hlt
      rw [next, step_of_spent hfirst hcounts hspent]
  cancelled s hs h :=
    ⟨fun hfailed => absurd hfailed (by simp [State.cancelled]),
      fun hlt => absurd (le_of_watches h hs) (Nat.not_le.2 hlt)⟩

/-- A run that has counted too many has come to an operation too many. -/
theorem exists_exceeds (h0 : s.opCount = 0) {n : Nat}
    (h : maxOperations < (m.next^[n] s).opCount) : ∃ k, m.Exceeds s k := by
  induction n with
  | zero => exact absurd h (by simp [h0])
  | succ n ih =>
    by_cases hbefore : maxOperations < (m.next^[n] s).opCount
    · exact ih hbefore
    · rw [Function.iterate_succ_apply'] at h
      obtain ⟨hspent, hfirst⟩ := spent_of_lt (Nat.not_lt.1 hbefore) h
      rw [opCount_iterate, h0, Nat.zero_add] at hspent
      exact ⟨n, hspent, hfirst⟩

theorem step_of_exceeds (h0 : s.opCount = 0) {n : Nat} (h : m.Exceeds s n) :
    m.step (m.next^[n] s) = .error .opCount { m.next^[n] s with
      pc := (m.next^[n] s).pc + 1, opCount := maxOperations + 1, status := .failed .opCount } := by
  obtain ⟨hspent, first, hfirst, hcounts⟩ := h
  refine step_of_spent hfirst hcounts ?_
  rw [opCount_iterate, h0, Nat.zero_add, hspent]

/-- **A run fails for the number of operations iff it comes to one too many.** -/
theorem execute_eq_opCount_iff (hcapacity : m.rules.capacity = some Stack.maxItems)
    (hs : s.Regular) (hrunning : s.status = .running) (h0 : s.opCount = 0) :
    (m.execute s).1 = .error .opCount ↔ ∃ n, m.Exceeds s n := by
  constructor
  · intro hfails
    have hwatches : Watches s := ⟨fun h => absurd (hrunning.symm.trans h) (by simp),
      fun h => absurd h (by simp [h0])⟩
    have hlast : Watches (m.execute s).2 := invariant_watches.call .execute hwatches
    have hstatus : (m.execute s).2.status = .failed .opCount := by
      change (m.execute s).2.answer = .error .opCount at hfails
      unfold State.answer at hfails
      split at hfails
      · rename_i fault hfault
        rw [hfault, Except.error.inj hfails]
      · exact absurd hfails (by simp)
    have hcount := hlast.1 hstatus
    rw [execute_eq] at hcount
    exact exists_exceeds h0 hcount
  · rintro ⟨n, hn⟩
    have hnext : (m.next^[n + 1] s).status = .failed .opCount := by
      rw [Function.iterate_succ_apply', next, step_of_exceeds h0 hn]
    rw [execute_eq_of_halted hcapacity hs (k := n + 1) (by rw [hnext]; simp), State.answer, hnext]

/-! ### Machines that code was loaded into -/

/-- **How a machine counts.**  Whatever is on the stacks to begin with, the operations that it has
counted are the instructions that it has read whose first byte counts, and it fails at the first
of them that is one too many, before anything else happens. -/
theorem counts_of_load {primitives : Primitives} {digest : Digest} {code : Bytes}
    (h : Machine.load primitives digest code = .ok m) {main alt : Stack}
    (hmain : Stack.Bounded main) (halt : Stack.Bounded alt) : m.Counts { main, alt } := by
  have hcapacity := capacity_of_load h
  have hregular : State.Regular { main, alt } := fun _ => ⟨hmain, halt, Nat.zero_le _⟩
  have hopCount : ∀ (m : Machine) (main alt : Stack) n, (m.next^[n] { main, alt }).opCount =
      (m.firstBytes n { main, alt }).countP countsAsOperation := by
    intro m main alt n
    rw [opCount_iterate, Nat.zero_add]
  have hstep : ∀ n first rest, (m.next^[n] { main, alt }).status = .running →
      m.code.drop (m.next^[n] { main, alt }).pc = first :: rest →
      (m.next^[n + 1] { main, alt }).opCount = (m.next^[n] { main, alt }).opCount +
        if (Instruction.read first rest).isFree then 0 else 1 := by
    intro n first rest hrunning hcode
    rw [Function.iterate_succ_apply', opCount_next, upcoming?_of_drop hrunning hcode,
      Option.toList_some, List.countP_singleton, isFree_read]
    cases countsAsOperation first <;> rfl
  constructor
  case opCount_eq => exact hopCount m main alt
  case firstBytes_isPrefix => exact fun n => firstBytes_isPrefix n { main, alt }
  case length_firstBytes => exact fun n => length_firstBytes
  case free =>
    intro n first rest hrunning hcode hfree
    rw [hstep n first rest hrunning hcode, if_pos hfree, Nat.add_zero]
  case counted =>
    intro n first rest hrunning hcode hfree
    rw [hstep n first rest hrunning hcode, if_neg (by simp [hfree])]
  case opCount_congr =>
    intro m' main' alt' n n' hcode hlen
    have hsame : m'.firstBytes n' { main := main', alt := alt' } = m.firstBytes n { main, alt } :=
      firstBytes_congr hcode rfl hlen
    rw [hopCount, hopCount, hsame]
  case step_of_exceeds => exact fun n => step_of_exceeds rfl
  case execute_iff => exact execute_eq_opCount_iff hcapacity hregular rfl rfl

/-- A byte that means nothing counts in a branch that is not executed, and so do the words around
it; the number behind them does not. -/
theorem counts_of_load_passedOver :
    ∃ m, Machine.load .standard .zero [0x00, 0x63, 0xff, 0x68, 0x51] = .ok m ∧ m.Counts {} ∧
      m.firstBytes 5 {} = [0x00, 0x63, 0xff, 0x68, 0x51] ∧ (m.next^[5] {}).opCount = 3 := by
  have hcode : ([0x00, 0x63, 0xff, 0x68, 0x51] : Bytes).length ≤ maxCodeSize := by decide
  have hload : Machine.load .standard .zero [0x00, 0x63, 0xff, 0x68, 0x51] = .ok _ := load_eq hcode
  have hcounts := counts_of_load hload Stack.bounded_nil Stack.bounded_nil
  have hfirst : firstBytes
      ⟨[0x00, 0x63, 0xff, 0x68, 0x51], .zero, .standard, .standard, by decide⟩ 5 {} =
        [0x00, 0x63, 0xff, 0x68, 0x51] := by decide +kernel
  refine ⟨_, hload, hcounts, hfirst, ?_⟩
  rw [hcounts.opCount_eq 5, hfirst]
  rfl

end Machine

end SpendScript
