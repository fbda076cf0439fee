import SpendScript.Proofs.Instruction.Boundary
import SpendScript.Proofs.Listing.Lines
import SpendScript.Proofs.Machine.Recording

/-!
# Listings and runs

A listing is made without running the code, by a reader of its own.  A run that goes on comes to
the places that the listing has lines for, one after another and none left out
(`Machine.drop_scan_iterate`); so the entries of a recorded run and the lines of the listing go
together until the run ends.

* `Machine.getElem?_lines` : the line with the number of a step is about the place of that step;
* `Machine.agrees_trace` : what the listing and the recorded run of the same code have to do with
  each other (`Machine.Agrees`).
-/

namespace SpendScript

open Instruction (maxDirect read scan scanFrom)
open Listing (cutText line lineOf)

/-- What a line of a listing can say about a recorded step: the word of the step, alone or with the
bytes behind it, unless a push is cut off there. -/
inductive TraceStep.Says (code : Bytes) (step : TraceStep) : String → Prop
  /-- An opcode that has no bytes behind it. -/
  | word (op : Opcode) (hfirst : code[step.offset]? = some op.toByte)
      (hop : ∀ width, op ≠ .pushData width) : Says code step step.opcode
  /-- A push with the bytes that it pushes. -/
  | push {form : PushForm} {data : Bytes} (hreadable : (Instruction.push form data).Readable)
      (hbytes : (Instruction.push form data).bytes <+: code.drop step.offset)
      (hdirect : form = .direct → data ≠ []) :
      Says code step (step.opcode ++ " 0x" ++ Hex.encode data)
  /-- A byte that means nothing. -/
  | unassigned {byte : UInt8} (hfirst : code[step.offset]? = some byte)
      (hnone : Opcode.ofByte? byte = none) (hlt : maxDirect < byte.toNat) :
      Says code step (step.opcode ++ " 0x" ++ Hex.encode [byte])
  /-- No complete instruction stands there. -/
  | cut (hcut : ∀ i : Instruction, i.Readable → ¬ i.bytes <+: code.drop step.offset) :
      Says code step cutText

namespace Machine

variable (m : Machine)

/-- What the lines of a listing and the entries of a recorded run have to do with each other. -/
structure Agrees (lines : List String) (steps : List TraceStep) : Prop where
  /-- The first lines are about the steps, each at its offset. -/
  line : ∀ i (h : i < steps.length), ∃ text,
    lines[i]? = some (line steps[i].offset text) ∧ steps[i].Says m.code text
  /-- There are no more lines than steps, unless a step failed. -/
  length_eq : (∀ i < steps.length, ∀ fault t, m.step (m.next^[i] {}) ≠ .error fault t) →
    steps.length = lines.length
  /-- Only the last line can be about a push that is cut off. -/
  cut_last : ∀ i offset, lines[i]? = some (Listing.line offset cutText) → i + 1 = lines.length
  /-- A run that comes to such a line fails there. -/
  cut_fails : ∀ offset, Listing.line offset cutText ∈ lines →
    ∀ k, (m.next^[k] {}).status = .running → (m.next^[k] {}).pc = offset →
      (∃ t, m.step (m.next^[k] {}) = .error .badStackOperation t) ∧
        m.run = .error .badStackOperation
  /-- A run that finds a push cut off has come to such a line. -/
  cut_listed : ∀ k first rest size, (m.next^[k] {}).status = .running →
    m.code.drop (m.next^[k] {}).pc = first :: rest → read first rest = .truncated size →
      lines[k]? = some (Listing.line (m.next^[k] {}).pc cutText)

variable {m} {s : State} {first : UInt8} {rest : Bytes} {k : Nat}

/-! ### Where a run comes to -/

/-- **A run that goes on leaves no place out**: what it has before it is what is still to be
found. -/
theorem drop_scan_iterate (hcapacity : m.rules.capacity = some Stack.maxItems)
    (hrunning : (m.next^[k] {}).status = .running) :
    (scan m.code).drop k = scanFrom [] (m.next^[k] {}).pc (m.code.drop (m.next^[k] {}).pc) := by
  induction k with
  | zero => rfl
  | succ k ih =>
    -- a step that does not end the run takes the first place off what is before it
    have hbefore := status_of_iterate_next (Nat.le_succ k) hrunning
    have hsound := (invariant_regular hcapacity).iterate k regular_start hbefore
    have hplaces := ih hbefore
    rw [Function.iterate_succ_apply'] at hrunning ⊢
    generalize m.next^[k] {} = s at hbefore hsound hplaces hrunning ⊢
    obtain ⟨i, ⟨hi, tail, hcode⟩, -, hpc⟩ :=
      reads_of_running hcapacity hsound hbefore hrunning
    have htail : m.code.drop (s.pc + i.bytes.length) = tail := by
      rw [← List.drop_drop, ← hcode, List.drop_left]
    rw [← List.drop_drop, hplaces, ← hcode, Instruction.scanFrom_bytes_append hi, hpc, htail]
    rfl

/-- The line with the number of a step is about the place where the step is made. -/
theorem getElem?_lines (hcapacity : m.rules.capacity = some Stack.maxItems)
    (hrunning : (m.next^[k] {}).status = .running)
    (hcode : m.code.drop (m.next^[k] {}).pc = first :: rest) :
    (Listing.lines m.code)[k]? =
      some (lineOf ⟨(m.next^[k] {}).pc, first, read first rest⟩) := by
  have hplace : (scan m.code)[k]? = some ⟨(m.next^[k] {}).pc, first, read first rest⟩ := by
    rw [← List.head?_drop, drop_scan_iterate hcapacity hrunning, hcode,
      Instruction.head?_scanFrom]
  rw [Listing.lines_eq, List.getElem?_map, hplace, Option.map_some]

theorem drop_eq_cons (hfirst : m.code[s.pc]? = some first) :
    m.code.drop s.pc = first :: m.code.drop (s.pc + 1) := by
  obtain ⟨hlt, rfl⟩ := List.getElem?_eq_some_iff.1 hfirst
  exact List.drop_eq_getElem_cons hlt

/-! ### What the lines say -/

theorem says_lineOf {code : Bytes} {offset : Nat} (hcode : code.drop offset = first :: rest)
    (stack : Stack) :
    ∃ text, lineOf ⟨offset, first, read first rest⟩ = line offset text ∧
      TraceStep.Says code ⟨offset, Opcode.describeByte first, stack⟩ text := by
  have hfirst : code[offset]? = some first := by
    rw [← List.head?_drop, hcode, List.head?_cons]
  cases hread : read first rest with
  | truncated size =>
    refine ⟨cutText, rfl, .cut fun i hi hprefix => ?_⟩
    have hsome : read first rest = .complete i i.bytes.length :=
      Instruction.read_eq_complete_iff.2 ⟨hi, rfl, by rwa [hcode] at hprefix⟩
    exact absurd (hsome.symm.trans hread) (by simp)
  | complete i size =>
    obtain ⟨hi, -, hprefix⟩ := Instruction.read_eq_complete_iff.1 hread
    have hopcode : first = i.opcode := by
      rw [Instruction.bytes_eq, List.cons_prefix_cons] at hprefix
      exact hprefix.1.symm
    rw [← hcode] at hprefix
    refine ⟨Listing.describe i, rfl, ?_⟩
    cases i with
    | push form data =>
      by_cases hempty : form = .direct → data ≠ []
      · rw [Listing.describe_push hempty, ← Listing.describeByte_opcode hi hempty, ← hopcode]
        exact .push hi hprefix hempty
      · simp only [not_forall, not_not, exists_prop] at hempty
        obtain ⟨rfl, rfl⟩ := hempty
        subst hopcode
        exact .word .empty hfirst (by simp)
    | operation op =>
      subst hopcode
      rw [Listing.describe, ← Listing.describeByte_operation]
      exact .word (.operation op) hfirst (by simp)
    | unassigned byte =>
      obtain rfl : first = byte := hopcode
      have htext : Listing.describe (.unassigned first) =
          Opcode.describeByte first ++ " 0x" ++ Hex.encode [first] := by
        rw [Listing.describeByte_unassigned hi]
        rfl
      rw [htext]
      exact .unassigned hfirst hi.1 hi.2

/-! ### Steps and lines -/

theorem run_of_cut (hcapacity : m.rules.capacity = some Stack.maxItems)
    (hrunning : (m.next^[k] {}).status = .running) {size : Nat}
    (hcode : m.code.drop (m.next^[k] {}).pc = first :: rest)
    (hread : read first rest = .truncated size) : m.run = .error .badStackOperation := by
  have hnext := next_of_cut hrunning hcode hread
  rw [← Function.iterate_succ_apply' m.next] at hnext
  rw [run, execute_eq_of_halted hcapacity regular_start (k := k + 1) (by rw [hnext]; simp), hnext]
  rfl

theorem lineOf_eq_cut {place : Located} {offset : Nat} (h : lineOf place = line offset cutText) :
    place.offset = offset ∧ ∃ size, place.fetched = .truncated size := by
  unfold lineOf at h
  split at h
  · exact absurd (Listing.line_inj.1 h).2 (Listing.describe_ne_cutText _)
  · exact ⟨(Listing.line_inj.1 h).1, _, ‹_›⟩

theorem read_of_cutText_mem {code : Bytes} {offset : Nat}
    (h : line offset cutText ∈ Listing.lines code) :
    ∃ first rest size, code.drop offset = first :: rest ∧ read first rest = .truncated size := by
  rw [Listing.lines_eq] at h
  obtain ⟨place, hplace, hline⟩ := List.mem_map.1 h
  obtain ⟨k, rest, hoffset, hdrop, hfetched⟩ := Instruction.drop_of_mem_scanFrom hplace
  obtain ⟨rfl, size, htruncated⟩ := lineOf_eq_cut hline
  rw [Nat.zero_add] at hoffset
  exact ⟨place.first, rest, size, hoffset ▸ hdrop, hfetched ▸ htruncated⟩

theorem length_lines_of_cutText {code : Bytes} {i offset : Nat}
    (h : (Listing.lines code)[i]? = some (line offset cutText)) :
    i + 1 = (Listing.lines code).length := by
  rw [Listing.lines_eq, List.getElem?_map, Option.map_eq_some_iff] at h
  obtain ⟨place, hplace, hline⟩ := h
  obtain ⟨-, size, htruncated⟩ := lineOf_eq_cut hline
  obtain ⟨hi, hget⟩ := List.getElem?_eq_some_iff.1 hplace
  have hscan : scanFrom [] 0 code =
      (scan code).take i ++ place :: (scan code).drop (i + 1) := by
    rw [← hget, ← List.drop_eq_getElem_cons hi, List.take_append_drop]
    rfl
  have hnil := Instruction.eq_nil_of_not_complete hscan (by rw [htruncated]; rfl)
  have hle := List.drop_eq_nil_iff.1 hnil
  rw [Listing.lines_eq, List.length_map]
  omega

theorem Recording.status_of_ok {steps : List TraceStep}
    (hcapacity : m.rules.capacity = some Stack.maxItems) (h : m.Recording {} steps)
    (hok : ∀ i < steps.length, ∀ fault t, m.step (m.next^[i] {}) ≠ .error fault t) :
    (m.next^[steps.length] {}).status = .running := by
  have hall : ∀ j ≤ steps.length, (m.next^[j] {}).status = .running := by
    intro j hj
    cases j with
    | zero => rfl
    | succ i =>
      obtain ⟨hrunning, -, first, hfirst, -⟩ := h.entry i hj
      have hsound := (invariant_regular hcapacity).iterate i regular_start hrunning
      rw [Function.iterate_succ_apply']
      cases hstep : m.step (m.next^[i] {}) with
      | error fault t => exact absurd hstep (hok i hj fault t)
      | ok _ t =>
        rw [next_of_step_ok hstep]
        exact status_of_step_ok hcapacity hsound hrunning
          (List.getElem?_eq_some_iff.1 hfirst).1 hstep
  exact hall _ (Nat.le_refl _)

/-- **The listing and the recorded run of the same code agree.** -/
theorem agrees_recording {steps : List TraceStep}
    (hcapacity : m.rules.capacity = some Stack.maxItems) (h : m.Recording {} steps) :
    m.Agrees (Listing.lines m.code) steps := by
  have hline : ∀ i (hi : i < steps.length), ∃ text,
      (Listing.lines m.code)[i]? = some (line steps[i].offset text) ∧
        steps[i].Says m.code text := by
    intro i hi
    obtain ⟨hrunning, hoffset, first, hfirst, hopcode⟩ := h.entry i hi
    have hcode := drop_eq_cons hfirst
    obtain ⟨text, htext, hsays⟩ := says_lineOf hcode steps[i].stack
    refine ⟨text, ?_, ?_⟩
    · rw [getElem?_lines hcapacity hrunning hcode, htext, hoffset]
    · rwa [← hoffset, ← hopcode] at hsays
  refine ⟨hline, fun hok => ?_, fun i offset => length_lines_of_cutText, ?_, ?_⟩
  · have hrunning := h.status_of_ok hcapacity hok
    -- behind the last step there is neither code left nor a line
    have hend : m.code.length ≤ (m.next^[steps.length] {}).pc :=
      Nat.not_lt.1 fun hlt => absurd (h.lt_length _ hrunning hlt) (Nat.lt_irrefl _)
    have hrest := drop_scan_iterate hcapacity hrunning
    rw [List.drop_eq_nil_of_le hend] at hrest
    have hle : (scan m.code).length ≤ steps.length := by
      rw [← List.drop_eq_nil_iff, hrest]
      simp [scanFrom]
    have hge : steps.length ≤ (Listing.lines m.code).length := by
      rcases Nat.eq_zero_or_pos steps.length with hzero | hpos
      · omega
      · obtain ⟨text, hget, -⟩ := hline (steps.length - 1) (by omega)
        have := (List.getElem?_eq_some_iff.1 hget).1
        omega
    rw [Listing.lines_eq, List.length_map] at hge ⊢
    omega
  · rintro offset hmem k hrunning rfl
    obtain ⟨first, rest, size, hcode, hread⟩ := read_of_cutText_mem hmem
    exact ⟨⟨_, step_of_cut hrunning hcode hread⟩, run_of_cut hcapacity hrunning hcode hread⟩
  · intro k first rest size hrunning hcode hread
    rw [getElem?_lines hcapacity hrunning hcode, hread]
    rfl

/-- **The listing and the run find the same instructions.**  Code that is not too long is loaded,
and then the lines of its listing and the entries of its recorded run agree. -/
theorem agrees_trace {primitives : Primitives} {digest : Digest} {code : Bytes}
    (hcode : code.length ≤ maxCodeSize) :
    ∃ m, Machine.load primitives digest code = .ok m ∧
      m.Agrees (Listing.lines code) (m.trace {}).1 := by
  have hload : Machine.load primitives digest code = .ok _ := load_eq hcode
  have hcapacity := capacity_of_load hload
  exact ⟨_, hload, agrees_recording hcapacity (recording_trace hcapacity regular_start)⟩

/-- The second push is cut off: the run comes to its line, which is the last one, and fails. -/
theorem agrees_trace_cut :
    ∃ m, Machine.load .standard .zero [0x51, 0x02, 0x61] = .ok m ∧
      m.Agrees ["0000: OP_1", "0001: <truncated push>"]
        [⟨0, "OP_1", [[1]]⟩, ⟨1, "PUSH", [[1]]⟩] ∧
      m.run = .error .badStackOperation := by
  have hlines : Listing.lines [0x51, 0x02, 0x61] = ["0000: OP_1", "0001: <truncated push>"] := by
    decide +kernel
  have htrace : (Machine.trace ⟨[0x51, 0x02, 0x61], .zero, .standard, .standard, by decide⟩ {}).1 =
      [⟨0, "OP_1", [[1]]⟩, ⟨1, "PUSH", [[1]]⟩] := by decide +kernel
  obtain ⟨m, hload, hagrees⟩ := @agrees_trace .standard .zero [0x51, 0x02, 0x61] (by decide)
  obtain rfl := Except.ok.inj (hload.symm.trans (load_eq (by decide)))
  rw [hlines, htrace] at hagrees
  refine ⟨_, hload, hagrees, ?_⟩
  exact (hagrees.cut_fails 1 (by decide) 1 (by decide +kernel) (by decide +kernel)).2

end Machine

end SpendScript
