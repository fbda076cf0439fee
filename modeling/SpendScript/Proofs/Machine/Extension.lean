import SpendScript.Crypto.ScriptSignature
import SpendScript.Proofs.Machine.Recording

/-!
# Code with more code behind it

A machine reads its code one instruction at a time and does not look behind the one that it obeys.
So code that does not end inside a push runs in front of other code (`Machine.Extends`) as it runs
by itself, up to its end: there the other code goes on with what it finds.

* `Machine.Extends.iterate_next` : the states before, between and behind the instructions;
* `Machine.Noted.isPrefix` : a record that tells truly begins any record that is complete;
* `Machine.extension_of_load` : what a run comes to that has more code behind it
  (`Machine.Extension`).
-/

namespace SpendScript

open Instruction (codeOf decode?)

namespace Machine

/-- The machine differs from another one in the code that it holds behind the code of that. -/
structure Extends (m' m : Machine) (tail : Bytes) : Prop where
  /-- More code follows. -/
  code_eq : m'.code = m.code ++ tail
  /-- Signatures are checked against the same digest. -/
  digest_eq : m'.digest = m.digest
  /-- The cryptographic functions are the same. -/
  primitives_eq : m'.primitives = m.primitives
  /-- The rules are the same. -/
  rules_eq : m'.rules = m.rules

/-- The program is what is left of the code behind the counter. -/
structure Ahead (m : Machine) (s : State) (program : List Instruction) : Prop where
  /-- Its instructions can stand in code. -/
  readable : ∀ i ∈ program, i.Readable
  /-- The counter stays within the code. -/
  pc_le : s.pc ≤ m.code.length
  /-- All of the code behind the counter is the program. -/
  drop_eq : m.code.drop s.pc = codeOf program

/-- What the runs of two machines have to do with each other if the code of the first, which has so
many instructions, stands in front of other code in the second. -/
structure Extension (m m' : Machine) (count : Nat) (tail : Bytes) : Prop where
  /-- Every instruction is met in the same state and obeyed in the same way. -/
  step_eq : ∀ k < count, m'.next^[k] {} = m.next^[k] {} ∧
    m'.step (m'.next^[k] {}) = m.step (m.next^[k] {})
  /-- The recorded steps come first. -/
  trace_prefix : (m.trace {}).1 <+: (m'.trace {}).1
  /-- A fault of an instruction ends both runs, in the same way. -/
  of_fault : ∀ k fault t, (m.next^[k] {}).status = .running →
    (m.next^[k] {}).pc < m.code.length → m.step (m.next^[k] {}) = .error fault t →
      m.execute {} = (.error fault, t) ∧ m'.execute {} = m.execute {} ∧
        m'.trace {} = m.trace {}
  /-- A machine that reaches the end of the first code ends there, well or with a conditional open.
  With more code it goes on from the same state, and so does the record. -/
  of_end : ∀ k, (m.next^[k] {}).status = .running → m.code.length ≤ (m.next^[k] {}).pc →
    (m.next^[k] {}).pc = m.code.length ∧
    m.execute {} = (if (m.next^[k] {}).frames = []
      then (.ok (m.next^[k] {}).verdict, { m.next^[k] {} with status := .succeeded })
      else (.error .unbalancedConditional,
        { m.next^[k] {} with status := .failed .unbalancedConditional })) ∧
    m'.next^[k] {} = m.next^[k] {} ∧
    m'.code.drop (m.next^[k] {}).pc = tail ∧
    m'.execute {} = m'.execute (m.next^[k] {}) ∧
    (m'.trace {}).1 = (m.trace {}).1 ++ (m'.trace (m.next^[k] {})).1
  /-- An instruction fails, or the end of the first code is reached. -/
  fails_or_ends :
    (∃ k fault t, (m.next^[k] {}).status = .running ∧ (m.next^[k] {}).pc < m.code.length ∧
      m.step (m.next^[k] {}) = .error fault t) ∨
    ∃ k, (m.next^[k] {}).status = .running ∧ m.code.length ≤ (m.next^[k] {}).pc

variable {m m' : Machine} {s : State} {i : Instruction} {program : List Instruction}
  {tail : Bytes}

/-! ### Places in a program -/

theorem Ahead.reads (h : m.Ahead s (i :: program)) : m.Reads s i := by
  refine ⟨(List.forall_mem_cons.1 h.readable).1, ?_⟩
  rw [h.drop_eq, Instruction.codeOf_cons]
  exact List.prefix_append _ _

theorem Ahead.pc_lt (h : m.Ahead s (i :: program)) : s.pc < m.code.length := by
  have hend := h.reads.pc_add_le
  have hpos := Instruction.length_bytes_pos i
  omega

theorem Ahead.pc_eq (h : m.Ahead s []) : s.pc = m.code.length :=
  Nat.le_antisymm h.pc_le (List.drop_eq_nil_iff.1 h.drop_eq)

theorem ahead_start (h : decode? m.code = some program) : m.Ahead {} program := by
  obtain ⟨hreadable, hcode⟩ := Instruction.decode?_eq_some_iff.1 h
  exact ⟨hreadable, Nat.zero_le _, hcode.symm⟩

theorem Reads.unique {j : Instruction} (hi : m.Reads s i) (hj : m.Reads s j) : i = j := by
  obtain ⟨hi, rest, hrest⟩ := hi
  obtain ⟨hj, rest', hrest'⟩ := hj
  exact (Instruction.bytes_append_cons_inj hi hj (hrest.trans hrest'.symm)).1

theorem Ahead.next (hcapacity : m.rules.capacity = some Stack.maxItems) (hs : s.Sound)
    (h : m.Ahead s (i :: program)) (hrunning : s.status = .running)
    (hnext : (m.next s).status = .running) : m.Ahead (m.next s) program := by
  obtain ⟨j, hreads, -, hpc⟩ := reads_of_running hcapacity hs hrunning hnext
  obtain rfl := hreads.unique h.reads
  refine ⟨(List.forall_mem_cons.1 h.readable).2, ?_, ?_⟩
  · rw [hpc]
    exact hreads.pc_add_le
  · rw [hpc, ← List.drop_drop, h.drop_eq, Instruction.codeOf_cons, List.drop_left]

/-- After as many steps as there are instructions at most, a machine that still runs has the others
before it. -/
theorem Ahead.iterate_next (hcapacity : m.rules.capacity = some Stack.maxItems) (hs : s.Regular)
    (h : m.Ahead s program) {k : Nat} (hk : k ≤ program.length)
    (hrunning : (m.next^[k] s).status = .running) :
    m.Ahead (m.next^[k] s) (program.drop k) := by
  induction k with
  | zero => exact h
  | succ k ih =>
    have hbefore := status_of_iterate_next (Nat.le_succ k) hrunning
    have hahead := ih (Nat.le_of_lt hk) hbefore
    rw [List.drop_eq_getElem_cons hk] at hahead
    rw [Function.iterate_succ_apply'] at hrunning ⊢
    exact hahead.next hcapacity ((invariant_regular hcapacity).iterate k hs hbefore) hbefore
      hrunning

theorem Ahead.lt_length (hcapacity : m.rules.capacity = some Stack.maxItems) (hs : s.Regular)
    (h : m.Ahead s program) {k : Nat} (hrunning : (m.next^[k] s).status = .running)
    (hpc : (m.next^[k] s).pc < m.code.length) : k < program.length := by
  by_contra hlt
  have hle : program.length ≤ k := Nat.not_lt.1 hlt
  have hlast := h.iterate_next hcapacity hs (Nat.le_refl _) (status_of_iterate_next hle hrunning)
  rw [List.drop_length] at hlast
  have hend := hlast.pc_eq
  rcases Nat.lt_or_eq_of_le hle with hlt | heq
  · have hgrown := pc_iterate_lt hcapacity hs hlt hrunning
    omega
  · rw [← heq] at hpc
    omega

theorem Ahead.eq_length (hcapacity : m.rules.capacity = some Stack.maxItems) (hs : s.Regular)
    (h : m.Ahead s program) {k : Nat} (hrunning : (m.next^[k] s).status = .running)
    (hpc : m.code.length ≤ (m.next^[k] s).pc) : k = program.length := by
  rcases Nat.lt_trichotomy k program.length with hlt | heq | hgt
  · have hahead := h.iterate_next hcapacity hs (Nat.le_of_lt hlt) hrunning
    rw [List.drop_eq_getElem_cons hlt] at hahead
    exact absurd hahead.pc_lt (Nat.not_lt.2 hpc)
  · exact heq
  · -- the step at the end of the code ends the run
    have hlast := h.iterate_next hcapacity hs (Nat.le_refl _)
      (status_of_iterate_next (Nat.le_of_lt hgt) hrunning)
    rw [List.drop_length] at hlast
    have hgrown := pc_iterate_lt hcapacity hs hgt hrunning
    have hregular := (invariant_regular hcapacity).iterate program.length hs
    have hnext := status_of_iterate_next (j := program.length + 1) hgt hrunning
    rw [Function.iterate_succ_apply'] at hnext
    obtain ⟨-, hpc', hle⟩ := next_of_running hcapacity
      (hregular (status_of_iterate_next (Nat.le_of_lt hgt) hrunning))
      (status_of_iterate_next (Nat.le_of_lt hgt) hrunning) hnext
    have hend := hlast.pc_eq
    omega

/-! ### Steps with more code behind -/

theorem step_eq_of_halted (hs : s.status ≠ .running) : m'.step s = m.step s := by
  unfold step
  cases hstatus : s.status with
  | running => exact absurd hstatus hs
  | succeeded => rfl
  | failed fault => rfl

namespace Extends

variable (h : Extends m' m tail)

include h

theorem capacity_eq (hcapacity : m.rules.capacity = some Stack.maxItems) :
    m'.rules.capacity = some Stack.maxItems := by
  rw [h.rules_eq, hcapacity]

theorem reads (hreads : m.Reads s i) : m'.Reads s i := by
  have hend := hreads.pc_add_le
  refine ⟨hreads.1, hreads.2.trans ?_⟩
  rw [h.code_eq, List.drop_append_of_le_length (Nat.le_of_add_right_le hend)]
  exact List.prefix_append _ _

/-- **An instruction is obeyed in the same way.** -/
theorem step_eq_of_reads (hreads : m.Reads s i) (hs : s.status = .running) :
    m'.step s = m.step s := by
  have hobey : m'.obey = m.obey := obey_congr h.digest_eq h.primitives_eq h.rules_eq
  rw [step_eq_of_advance hs, step_eq_of_advance hs, advance_of_reads hreads,
    advance_of_reads (h.reads hreads), hobey]

theorem step_iterate_next (hcapacity : m.rules.capacity = some Stack.maxItems) (hs : s.Regular)
    (hahead : m.Ahead s program) {k : Nat} (hk : k < program.length) :
    m'.step (m.next^[k] s) = m.step (m.next^[k] s) := by
  by_cases hrunning : (m.next^[k] s).status = .running
  · have hrest := hahead.iterate_next hcapacity hs (Nat.le_of_lt hk) hrunning
    rw [List.drop_eq_getElem_cons hk] at hrest
    exact h.step_eq_of_reads hrest.reads hrunning
  · exact step_eq_of_halted hrunning

/-- **As many steps as there are instructions** lead to the same state. -/
theorem iterate_next (hcapacity : m.rules.capacity = some Stack.maxItems) (hs : s.Regular)
    (hahead : m.Ahead s program) {k : Nat} (hk : k ≤ program.length) :
    m'.next^[k] s = m.next^[k] s := by
  induction k with
  | zero => rfl
  | succ k ih =>
    rw [Function.iterate_succ_apply', Function.iterate_succ_apply', ih (Nat.le_of_lt hk), next,
      next, h.step_iterate_next hcapacity hs hahead hk]

theorem noted (hcapacity : m.rules.capacity = some Stack.maxItems) (hs : s.Regular)
    (hahead : m.Ahead s program) {entries : List TraceStep} (hnoted : m.Noted s entries) :
    m'.Noted s entries := by
  intro k hk
  obtain ⟨hrunning, first, hfirst, hentry⟩ := hnoted k hk
  have hpc := (List.getElem?_eq_some_iff.1 hfirst).1
  have hlt := hahead.lt_length hcapacity hs hrunning hpc
  have hshown : m'.shown (m.next^[k] s) = m.shown (m.next^[k] s) := by
    rw [shown, shown, h.step_iterate_next hcapacity hs hahead hlt]
  rw [h.iterate_next hcapacity hs hahead (Nat.le_of_lt hlt)]
  refine ⟨hrunning, first, ?_, by rw [hentry, hshown]⟩
  rw [h.code_eq, List.getElem?_append_left hpc, hfirst]

end Extends

/-! ### Records -/

section

variable {entries entries' : List TraceStep}

/-- **A record that tells truly begins any record that misses nothing.** -/
theorem Noted.isPrefix (h : m.Noted s entries) (h' : m.Noted s entries')
    (hcomplete : ∀ k, (m.next^[k] s).status = .running → (m.next^[k] s).pc < m.code.length →
      k < entries'.length) : entries <+: entries' := by
  have hlen : entries.length ≤ entries'.length := by
    by_contra hlt
    obtain ⟨hrunning, first, hfirst, -⟩ := h entries'.length (Nat.not_le.1 hlt)
    exact Nat.lt_irrefl _ (hcomplete _ hrunning (List.getElem?_eq_some_iff.1 hfirst).1)
  refine List.prefix_iff_getElem.2 ⟨hlen, fun k hk => ?_⟩
  obtain ⟨-, first, hfirst, hentry⟩ := h k hk
  obtain ⟨-, first', hfirst', hentry'⟩ := h' k (Nat.lt_of_lt_of_le hk hlen)
  obtain rfl : first = first' := Option.some.inj (hfirst.symm.trans hfirst')
  rw [hentry, hentry']

theorem Noted.append (h : m.Noted s entries)
    (h' : m.Noted (m.next^[entries.length] s) entries') : m.Noted s (entries ++ entries') := by
  intro k hk
  rw [List.getElem_append]
  split
  · exact h k ‹_›
  · rename_i hge
    have hrest := h' (k - entries.length) (by rw [List.length_append] at hk; omega)
    rwa [iterate_next_add, Nat.add_sub_cancel' (Nat.not_lt.1 hge)] at hrest

end

theorem noted_trace (s : State) : m.Noted s (m.trace s).1 := by
  rw [trace_fst]
  exact (record_spec _ s).2

/-- **A recorded run is made of two**, up to any of its steps and from there. -/
theorem trace_fst_eq_append (hcapacity : m.rules.capacity = some Stack.maxItems)
    (hs : s.Regular) {entries : List TraceStep} (hnoted : m.Noted s entries) :
    (m.trace s).1 = entries ++ (m.trace (m.next^[entries.length] s)).1 := by
  have hrest := noted_trace (m := m) (m.next^[entries.length] s)
  have hwhole := hnoted.append hrest
  have hlength := (recording_trace hcapacity hs).lt_length
  have hregular := (invariant_regular hcapacity).iterate entries.length hs
  have hbegins := hwhole.isPrefix (noted_trace s) hlength
  have hends : (m.trace s).1 <+: entries ++ (m.trace (m.next^[entries.length] s)).1 := by
    refine (noted_trace s).isPrefix hwhole fun k hrunning hpc => ?_
    rw [List.length_append]
    rcases Nat.lt_or_ge k entries.length with hlt | hge
    · omega
    · obtain ⟨j, rfl⟩ := Nat.exists_eq_add_of_le hge
      rw [← iterate_next_add] at hrunning hpc
      have hj := (recording_trace hcapacity hregular).lt_length j hrunning hpc
      omega
  exact hends.eq_of_length_le hbegins.length_le

/-! ### Runs -/

theorem execute_of_step_error (hcapacity : m.rules.capacity = some Stack.maxItems)
    (hs : s.Regular) {k : Nat} {fault : Fault} {t : State}
    (hstep : m.step (m.next^[k] s) = .error fault t) : m.execute s = (.error fault, t) := by
  have hlast : m.next^[k + 1] s = t := by
    rw [Function.iterate_succ_apply', next_of_step_error hstep]
  have hstatus := status_of_step_error hstep
  rw [execute_eq_of_halted hcapacity hs (k := k + 1) (by rw [hlast, hstatus]; simp), hlast,
    State.answer, hstatus]

theorem execute_at_end (hcapacity : m.rules.capacity = some Stack.maxItems) (hs : s.Regular)
    {k : Nat} (hrunning : (m.next^[k] s).status = .running)
    (hend : m.code.length ≤ (m.next^[k] s).pc) :
    m.execute s = if (m.next^[k] s).frames = []
      then (.ok (m.next^[k] s).verdict, { m.next^[k] s with status := .succeeded })
      else (.error .unbalancedConditional,
        { m.next^[k] s with status := .failed .unbalancedConditional }) := by
  have hlast : m.next^[k + 1] s = _ :=
    (Function.iterate_succ_apply' m.next k s).trans (next_at_end hrunning hend)
  rw [execute_eq_of_halted hcapacity hs (k := k + 1) (by rw [hlast]; split <;> simp), hlast]
  split <;> rfl

theorem pc_iterate_le (hcapacity : m.rules.capacity = some Stack.maxItems) (hs : s.Regular)
    {k : Nat} (hk : 0 < k) (hrunning : (m.next^[k] s).status = .running) :
    (m.next^[k] s).pc ≤ m.code.length := by
  obtain ⟨k, rfl⟩ := Nat.exists_eq_add_one_of_ne_zero (Nat.ne_of_gt hk)
  have hbefore := status_of_iterate_next (Nat.le_succ k) hrunning
  rw [Function.iterate_succ_apply'] at hrunning ⊢
  have hregular := (invariant_regular hcapacity).iterate k hs
  exact (next_of_running hcapacity (hregular hbefore) hbefore hrunning).2.2

theorem length_trace_of_end (hcapacity : m.rules.capacity = some Stack.maxItems)
    (hs : s.Regular) {k : Nat} (hrunning : (m.next^[k] s).status = .running)
    (hend : m.code.length ≤ (m.next^[k] s).pc) : (m.trace s).1.length = k := by
  refine Nat.le_antisymm (Nat.not_lt.1 fun hlt => ?_) (Nat.not_lt.1 fun hlt => ?_)
  · obtain ⟨-, first, hfirst, -⟩ := noted_trace s k hlt
    exact absurd (List.getElem?_eq_some_iff.1 hfirst).1 (Nat.not_lt.2 hend)
  · -- a step inside the code is missing
    have hbefore := status_of_iterate_next (Nat.le_of_lt hlt) hrunning
    have hpc := pc_iterate_lt hcapacity hs hlt hrunning
    have hinside := pc_iterate_le hcapacity hs (Nat.zero_lt_of_lt hlt) hrunning
    exact absurd ((recording_trace hcapacity hs).lt_length _ hbefore (by omega))
      (Nat.lt_irrefl _)

/-- A run comes to the end of the code, or an instruction fails. -/
theorem fails_or_ends (hcapacity : m.rules.capacity = some Stack.maxItems) (hs : s.Regular)
    (hstart : s.status = .running) :
    (∃ k fault t, (m.next^[k] s).status = .running ∧ (m.next^[k] s).pc < m.code.length ∧
        m.step (m.next^[k] s) = .error fault t) ∨
      ∃ k, (m.next^[k] s).status = .running ∧ m.code.length ≤ (m.next^[k] s).pc := by
  have hnoted := noted_trace (m := m) s
  have hcomplete := (recording_trace hcapacity hs).lt_length
  -- what follows the last step that is recorded
  generalize (m.trace s).1 = entries at hnoted hcomplete
  by_cases hlast : (m.next^[entries.length] s).status = .running
  · exact .inr ⟨_, hlast, Nat.not_lt.1 fun hpc => Nat.lt_irrefl _ (hcomplete _ hlast hpc)⟩
  · cases hlength : entries.length with
    | zero => exact absurd hstart (by rwa [hlength] at hlast)
    | succ k =>
      have hk : k < entries.length := by omega
      obtain ⟨hrunning, first, hfirst, -⟩ := hnoted k hk
      have hpc := (List.getElem?_eq_some_iff.1 hfirst).1
      have hregular := (invariant_regular hcapacity).iterate k hs
      cases hstep : m.step (m.next^[k] s) with
      | error fault t => exact .inl ⟨k, fault, t, hrunning, hpc, hstep⟩
      | ok _ t =>
        have hgoes := status_of_step_ok hcapacity (hregular hrunning) hrunning hpc hstep
        rw [hlength, Function.iterate_succ_apply', next_of_step_ok hstep] at hlast
        exact absurd hgoes hlast

/-- **Code that does not end inside a push runs in front of other code as by itself.** -/
theorem Extends.extension (h : Extends m' m tail)
    (hcapacity : m.rules.capacity = some Stack.maxItems) (hdecode : decode? m.code = some program) :
    Extension m m' program.length tail := by
  have hcapacity' := h.capacity_eq hcapacity
  have hahead := ahead_start hdecode
  have hstep : ∀ {k}, k < program.length → m'.step (m.next^[k] {}) = m.step (m.next^[k] {}) :=
    h.step_iterate_next hcapacity regular_start hahead
  have hiterate : ∀ {k}, k ≤ program.length → m'.next^[k] {} = m.next^[k] {} :=
    h.iterate_next hcapacity regular_start hahead
  have hnoted : m'.Noted {} (m.trace {}).1 :=
    h.noted hcapacity regular_start hahead (noted_trace {})
  have hsteps := trace_fst_eq_append hcapacity' regular_start hnoted
  refine ⟨fun k hk => ?_, ?_, fun k fault t hrunning hpc hfault => ?_, fun k hrunning hend => ?_,
    fails_or_ends hcapacity regular_start rfl⟩
  · rw [hiterate (Nat.le_of_lt hk)]
    exact ⟨rfl, hstep hk⟩
  · rw [hsteps]
    exact List.prefix_append _ _
  · have hk := hahead.lt_length hcapacity regular_start hrunning hpc
    have hexecute := execute_of_step_error hcapacity regular_start hfault
    have hfault' : m'.step (m'.next^[k] {}) = .error fault t := by
      rw [hiterate (Nat.le_of_lt hk), hstep hk, hfault]
    have hexecute' := execute_of_step_error hcapacity' regular_start hfault'
    -- the step that failed is the last that was recorded, and nothing is recorded behind it
    have hlast : k + 1 = (m.trace {}).1.length :=
      (noted_trace {}).last_of_error
        ((recording_trace hcapacity regular_start).lt_length k hrunning hpc) hfault
    have hhalted : (m'.next^[k + 1] {}).status ≠ .running := by
      rw [Function.iterate_succ_apply', next_of_step_error hfault', status_of_step_error hfault]
      simp
    have hnone : (m'.trace (m'.next^[k + 1] {})).1 = [] := by
      rw [trace_fst, record_of_not _ fun hnot => hhalted hnot.1]
    rw [← hlast, hnone, List.append_nil] at hsteps
    refine ⟨hexecute, hexecute'.trans hexecute.symm, Prod.ext hsteps ?_⟩
    rw [trace_snd_eq_execute hcapacity' regular_start,
      trace_snd_eq_execute hcapacity regular_start, hexecute, hexecute']
  · have hlength := length_trace_of_end hcapacity regular_start hrunning hend
    obtain rfl := hahead.eq_length hcapacity regular_start hrunning hend
    have hahead' := hahead.iterate_next hcapacity regular_start (Nat.le_refl _) hrunning
    rw [List.drop_length] at hahead'
    have hstate := hiterate (Nat.le_refl _)
    refine ⟨hahead'.pc_eq, execute_at_end hcapacity regular_start hrunning hend, hstate, ?_, ?_, ?_⟩
    · rw [hahead'.pc_eq, h.code_eq, List.drop_left]
    · rw [← hstate, execute_iterate hcapacity' regular_start]
    · rw [hsteps, hlength, hstate]

theorem extends_of_load {primitives : Primitives} {digest : Digest} {code tail : Bytes}
    (hload : Machine.load primitives digest code = .ok m)
    (hload' : Machine.load primitives digest (code ++ tail) = .ok m') : Extends m' m tail := by
  obtain ⟨hcode, hdigest, hprimitives, hrules⟩ := of_load hload
  obtain ⟨hcode', hdigest', hprimitives', hrules'⟩ := of_load hload'
  exact ⟨by rw [hcode, hcode'], hdigest'.trans hdigest.symm, hprimitives'.trans hprimitives.symm,
    hrules'.trans hrules.symm⟩

/-- **Code in front of other code.**  Code that does not end inside a push runs in front of other
code as it runs by itself: its instructions do the same, its recorded steps come first, a fault of
it ends the whole run in the same way, and where it comes to its end the other code goes on with
what it finds. -/
theorem extension_of_load {primitives : Primitives} {digest : Digest} {code tail : Bytes}
    (hload : Machine.load primitives digest code = .ok m)
    (hload' : Machine.load primitives digest (code ++ tail) = .ok m')
    (hdecode : decode? code = some program) : Extension m m' program.length tail := by
  refine (extends_of_load hload hload').extension (capacity_of_load hload) ?_
  rwa [(of_load hload).1]

/-- A conditional that is left open is closed by the code behind it; by itself it is a fault. -/
theorem extension_of_load_open :
    ∃ m m' program, Machine.load .standard .zero [0x51, 0x63] = .ok m ∧
      Machine.load .standard .zero ([0x51, 0x63] ++ [0x52, 0x68]) = .ok m' ∧
      decode? [0x51, 0x63] = some program ∧ Extension m m' program.length [0x52, 0x68] ∧
      m.run = .error .unbalancedConditional ∧ m'.run = .ok true ∧
      m'.next^[2] {} = m.next^[2] {} := by
  have hload : Machine.load .standard .zero [0x51, 0x63] = .ok _ := load_eq (by decide)
  have hload' : Machine.load .standard .zero ([0x51, 0x63] ++ [0x52, 0x68]) = .ok _ :=
    load_eq (by decide)
  have hdecode : decode? [0x51, 0x63] =
      some [.operation (.constant (.small 0)), .operation (.branch .ifTrue)] :=
    Instruction.decode?_eq_some_iff.2 ⟨by simp [Instruction.Readable], rfl⟩
  have hextension := extension_of_load hload hload' hdecode
  obtain ⟨-, -, hstate, -⟩ := hextension.of_end 2 (by decide +kernel) (by decide +kernel)
  exact ⟨_, _, _, hload, hload', hdecode, hextension, by decide +kernel, by decide +kernel, hstate⟩

end Machine

end SpendScript
