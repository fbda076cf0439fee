import SpendScript.Crypto.ScriptSignature
import SpendScript.Proofs.Machine.Calls

/-!
# Code that can be accepted

A run meets every instruction of its code once and in order, whatever is on the stacks, and checks
each of them also in branches that are not executed.  So all that is checked without looking at the
stacks can be seen from the code (`WellFormed`).

* `Machine.execute_static` : code that ran to its end is well-formed, and well-formed code does not
  fail with a static fault.
-/

namespace SpendScript

open Instruction (operations nesting codeOf decode?)

/-- Nothing but the stacks speaks against the program. -/
structure Lawful (program : List Instruction) : Prop where
  /-- No push holds too many bytes, and no word fails wherever it is met. -/
  permitted : ∀ i ∈ program, i.Permitted
  /-- There are not too many operations. -/
  operations_le : operations program ≤ maxOperations
  /-- Conditionals are opened before they are turned or closed, and all are closed. -/
  balanced : Instruction.Balanced program

/-- The code does not end inside a push, and nothing but the stacks speaks against it. -/
def WellFormed (code : Bytes) : Prop :=
  ∃ program, decode? code = some program ∧ Lawful program

theorem Primitives.short_standard (signedBy : Bytes → Bytes → Bytes → Bool) :
    ({ Primitives.standard with signedBy } : Primitives).Short := by
  intro h item
  cases h <;> simp [hash, hash160, hash256, standard, Stack.maxItemSize]

namespace Machine

/-- The program is what was met before the counter. -/
structure Met (m : Machine) (s : State) (program : List Instruction) : Prop where
  /-- Its instructions can stand in code. -/
  readable : ∀ i ∈ program, i.Readable
  /-- None of them fails wherever it is met. -/
  permitted : ∀ i ∈ program, i.Permitted
  /-- The code begins with it. -/
  prefix_code : codeOf program <+: m.code
  /-- The counter is behind it. -/
  pc_eq : s.pc = (codeOf program).length
  /-- All its operations were counted. -/
  opCount_eq : s.opCount = operations program
  /-- The conditionals are open that it leaves open. -/
  nesting_eq : nesting 0 program = some s.frames.length

/-- What a state tells about the code. -/
structure Tells (m : Machine) (s : State) : Prop where
  /-- A machine that runs has met a program. -/
  running : s.status = .running → s.Sound ∧ ∃ program, m.Met s program
  /-- A machine that ended well has well-formed code. -/
  succeeded : s.status = .succeeded → WellFormed m.code
  /-- A machine that ended with a static fault has not. -/
  failed : ∀ fault, s.status = .failed fault → fault.isStatic = true → m.primitives.Short →
    ¬ WellFormed m.code

variable {m : Machine} {s t : State} {i : Instruction} {program : List Instruction}

namespace Met

theorem drop_eq (h : m.Met s program) : m.code = codeOf program ++ m.code.drop s.pc := by
  obtain ⟨rest, hcode⟩ := h.prefix_code
  rw [h.pc_eq, ← hcode, List.drop_left]

theorem decode?_code (h : m.Met s program) (hend : m.code.length ≤ s.pc) :
    decode? m.code = some program := by
  rw [Instruction.decode?_eq_some_iff]
  refine ⟨h.readable, ?_⟩
  have hcode := h.drop_eq
  rw [List.drop_eq_nil_of_le hend, List.append_nil] at hcode
  exact hcode.symm

theorem exists_eq (h : m.Met s program) (hreads : m.Reads s i) {whole : List Instruction}
    (hwhole : decode? m.code = some whole) : ∃ todo, whole = program ++ i :: todo := by
  obtain ⟨hreadable, hcode⟩ := Instruction.decode?_eq_some_iff.1 hwhole
  obtain ⟨hi, rest, hrest⟩ := hreads
  have hwhole_code : codeOf whole = codeOf program ++ (i.bytes ++ rest) := by
    rw [hcode, hrest]
    exact h.drop_eq
  exact Instruction.exists_eq_append_cons hreadable h.readable hi hwhole_code

theorem fits (h : m.Met s program) {todo : List Instruction}
    (hlawful : Lawful (program ++ i :: todo)) : i.Fits (s.behind i) := by
  obtain ⟨hpermitted, hops, hbalanced⟩ := hlawful
  refine ⟨hpermitted i (by simp), ?_, ?_⟩
  · rw [Instruction.operations_append, Instruction.operations_cons] at hops
    change s.opCount + operations [i] ≤ maxOperations
    rw [h.opCount_eq]
    omega
  · unfold Instruction.Balanced at hbalanced
    rw [Instruction.nesting_append, h.nesting_eq, Option.bind_some,
      Instruction.nesting_cons] at hbalanced
    change (i.nest s.frames.length).isSome
    cases hnest : i.nest s.frames.length with
    | none => exact absurd hbalanced (by simp [hnest])
    | some depth => rfl

/-- An instruction that was obeyed has been met. -/
theorem append (h : m.Met s program) (hreads : m.Reads s i)
    (hchange : Change i (s.behind i) t) (hfits : i.Fits (s.behind i))
    (hnest : i.nest s.frames.length = some t.frames.length) : m.Met t (program ++ [i]) where
  readable := List.forall_mem_append.2 ⟨h.readable, by simpa using hreads.1⟩
  permitted := List.forall_mem_append.2 ⟨h.permitted, by simpa using hfits.1⟩
  prefix_code := by
    rw [Instruction.codeOf_append, Instruction.codeOf_cons, Instruction.codeOf_nil,
      List.append_nil, h.drop_eq]
    exact (List.prefix_append_right_inj _).2 hreads.2
  pc_eq := by
    have hpc : t.pc = s.pc + i.bytes.length := hchange.pc_eq
    rw [hpc, h.pc_eq]
    simp
  opCount_eq := by
    have hcount : t.opCount = s.opCount + operations [i] := hchange.opCount_eq
    rw [hcount, h.opCount_eq, Instruction.operations_append]
  nesting_eq := by
    rw [Instruction.nesting_append, h.nesting_eq, Option.bind_some, Instruction.nesting_cons,
      hnest]
    rfl

end Met

namespace Tells

/-- A machine that ends with a fault that is not static tells nothing. -/
theorem of_dynamic {fault : Fault} (hstatus : s.status = .failed fault)
    (hfault : fault.isStatic = false) : m.Tells s where
  running hs := absurd (hs.symm.trans hstatus) (by simp)
  succeeded hs := absurd (hs.symm.trans hstatus) (by simp)
  failed fault' hs hstatic := by
    obtain rfl : fault' = fault := by simpa using hs.symm.trans hstatus
    exact Fault.elim_static hfault hstatic

/-- **Every step tells the truth about the code.** -/
theorem next (hcapacity : m.rules.capacity = some Stack.maxItems) (h : m.Tells s)
    (hs : s.status = .running) : m.Tells (m.next s) := by
  obtain ⟨hsound, program, hmet⟩ := h.running hs
  have hmove := move (m := m) hs
  generalize m.next s = t at hmove
  cases hmove with
  | finish hend hframes =>
    have hwell : WellFormed m.code := by
      refine ⟨program, hmet.decode?_code hend, hmet.permitted, ?_, ?_⟩
      · rw [← hmet.opCount_eq]
        exact hsound.opCount_le
      · unfold Instruction.Balanced
        rw [hmet.nesting_eq, hframes]
        rfl
    exact ⟨by simp, fun _ => hwell, by simp⟩
  | unclosed hend hframes =>
    refine ⟨by simp, by simp, fun _ _ _ _ hwell => ?_⟩
    obtain ⟨whole, hwhole, hlawful⟩ := hwell
    -- all of the code was met, so the whole program is what is still open
    obtain rfl : program = whole :=
      Option.some.inj ((hmet.decode?_code hend).symm.trans hwhole)
    have hopen := hmet.nesting_eq.symm.trans hlawful.balanced
    exact hframes (List.length_eq_zero_iff.1 (Option.some.inj hopen))
  | cut => exact of_dynamic rfl rfl
  | @fault i fault t hreads hobey =>
    have houtcome := hreads.obeyed hcapacity hsound
    rw [hobey] at houtcome
    refine ⟨by simp, by simp, fun fault' hs hstatic hshort hwell => ?_⟩
    obtain rfl : fault' = fault := by simpa using hs.symm
    -- a lawful program goes on with this instruction, which therefore fits
    obtain ⟨whole, hwhole, hlawful⟩ := hwell
    obtain ⟨todo, rfl⟩ := hmet.exists_eq hreads hwhole
    exact houtcome.2 hstatic hshort (hmet.fits hlawful)
  | crowded => exact of_dynamic rfl rfl
  | @onward i _ hreads hobey =>
    have houtcome := hreads.obeyed hcapacity hsound
    rw [hobey] at houtcome
    obtain ⟨hchange, hfits, hnest⟩ := houtcome
    have hstatus : t.status = .running := hchange.status_eq.trans hs
    have hmet' := hmet.append hreads hchange hfits hnest
    exact ⟨fun _ => ⟨hchange.sound hfits, _, hmet'⟩, by simp [hstatus], by simp [hstatus]⟩

end Tells

theorem invariant_tells (hcapacity : m.rules.capacity = some Stack.maxItems) :
    m.Invariant m.Tells where
  next _ hs h := h.next hcapacity hs
  cancelled _ _ _ := .of_dynamic rfl rfl

theorem execute_tells (hcapacity : m.rules.capacity = some Stack.maxItems) (hs : s.Sound)
    (htells : m.Tells s) :
    ((∃ b, (m.execute s).1 = .ok b) → WellFormed m.code) ∧
      (m.primitives.Short → WellFormed m.code →
        ∀ fault, (m.execute s).1 = .error fault → fault.isStatic = false) := by
  have hend : m.Tells (m.execute s).2 :=
    (invariant_tells hcapacity).runUntil _ _ _ htells
  have hhalted := status_execute hcapacity hs
  have hanswer : (m.execute s).1 = (m.execute s).2.answer := rfl
  rw [hanswer]
  generalize (m.execute s).2 = last at hend hhalted
  unfold State.answer
  cases hstatus : last.status with
  | running => exact absurd hstatus hhalted
  | succeeded => exact ⟨fun _ => hend.succeeded hstatus, by simp⟩
  | failed fault =>
    refine ⟨by simp, fun hshort hwell fault' hfault => ?_⟩
    obtain rfl := Except.error.inj hfault
    by_contra hstatic
    exact hend.failed fault hstatus (Bool.not_eq_false _ ▸ hstatic) hshort hwell

theorem tells_start {main alt : Stack} (hmain : Stack.Bounded main) (halt : Stack.Bounded alt) :
    m.Tells { main, alt } where
  running _ := ⟨⟨hmain, halt, Nat.zero_le _⟩, [],
    ⟨by simp, by simp, List.nil_prefix, rfl, rfl, rfl⟩⟩
  succeeded hs := absurd hs (by simp)
  failed _ hs := absurd hs (by simp)

/-- **Code that can be accepted is well-formed, and well-formed code has no static fault.**  The
stacks may hold anything to begin with, and anything may be a signature. -/
theorem execute_static (digest : Digest) (signedBy : Bytes → Bytes → Bytes → Bool) {code : Bytes}
    (hcode : code.length ≤ maxCodeSize) {main alt : Stack} (hmain : Stack.Bounded main)
    (halt : Stack.Bounded alt) :
    ∃ m, Machine.load { Primitives.standard with signedBy } digest code = .ok m ∧
      ((∃ b, (m.execute { main, alt }).1 = .ok b) → WellFormed code) ∧
      (WellFormed code →
        ∀ fault, (m.execute { main, alt }).1 = .error fault → fault.isStatic = false) := by
  refine ⟨_, load_eq hcode, ?_⟩
  obtain ⟨haccepted, hstatic⟩ := execute_tells (m := ⟨code, digest, _, .standard, hcode⟩) rfl
    ⟨hmain, halt, Nat.zero_le _⟩ (tells_start hmain halt)
  exact ⟨haccepted, hstatic (Primitives.short_standard signedBy)⟩

/-- A conditional with two empty branches, run on a true item, comes to its end. -/
theorem execute_static_emptyBranches :
    ∃ m, Machine.load { Primitives.standard with signedBy := fun _ _ _ => false } .zero
        [0x63, 0x67, 0x68] = .ok m ∧
      (m.execute { main := [[1]] }).1 = .ok false ∧ WellFormed [0x63, 0x67, 0x68] ∧
      ∀ fault, (m.execute { main := [[1]] }).1 = .error fault → fault.isStatic = false := by
  have hmain : Stack.Bounded [[1]] :=
    Stack.bounded_cons_iff.2 ⟨by decide, by decide, Stack.bounded_nil⟩
  have hcode : ([0x63, 0x67, 0x68] : Bytes).length ≤ maxCodeSize := by decide
  obtain ⟨m, hload, haccepted, hstatic⟩ :=
    execute_static .zero (fun _ _ _ => false) hcode hmain Stack.bounded_nil
  obtain rfl := Except.ok.inj ((load_eq hcode).symm.trans hload)
  have hrun : (Machine.execute
      ⟨[0x63, 0x67, 0x68], .zero, { Primitives.standard with signedBy := fun _ _ _ => false },
        .standard, hcode⟩ { main := [[1]] }).1 = .ok false := rfl
  have hwell := haccepted ⟨false, hrun⟩
  exact ⟨_, hload, hrun, hwell, hstatic hwell⟩

end Machine

end SpendScript
