import SpendScript.Proofs.Instruction.Program
import SpendScript.Proofs.Stack.Tame

/-!
# Obeying single instructions

An instruction is measured and counted first, and *carried out* after that unless it is passed over.
Most instructions look at the main stack alone (`Machine.mainAction?`); the others open, turn and
close conditionals, move an item from one stack to the other, or note where they stand.

* `Machine.obey_eq`, `Machine.obey_refused` : an instruction that is neither too long nor one too
  many, and one that is;
* `Machine.leaves_obey` : either is counted;
* `Machine.carryOut_eq_onMain`, `Machine.mainAction?_eq_none` : the two kinds of instructions;
* `Machine.transfer_apply` : moving an item looks at both stacks and at nothing else;
* `Machine.leaves_carryOut` : what carrying out leaves alone;
* `Machine.Lifts.obey` : two machines that carry out an instruction alike obey it alike.
-/

namespace SpendScript

open Effect (onMain onAlt)

/-- No hash has more bytes than an item may have. -/
def Primitives.Short (p : Primitives) : Prop :=
  ∀ h item, (p.hash h item).length ≤ Stack.maxItemSize

namespace Instruction

/-- A push does not hold too many bytes. -/
def Short : Instruction → Prop
  | .push _ data => data.length ≤ Stack.maxItemSize
  | _ => True

/-- The instruction is obeyed also in a branch that is not executed. -/
def isUnconditional : Instruction → Bool
  | .operation op => op.isUnconditional
  | _ => false

variable {i : Instruction}

theorem Permitted.short (h : i.Permitted) : i.Short := by
  cases i with
  | push form data => exact h
  | operation op => trivial
  | unassigned byte => trivial

theorem exists_push_of_not_short (h : ¬ i.Short) :
    ∃ form data, i = .push form data ∧ Stack.maxItemSize < data.length := by
  cases i with
  | push form data => exact ⟨form, data, rfl, Nat.not_le.1 h⟩
  | operation op => exact absurd trivial h
  | unassigned byte => exact absurd trivial h

theorem isCounted_unassigned {byte : UInt8} (h : (unassigned byte).Readable) :
    (unassigned byte).isCounted = true := by
  -- from the pushes up to here, every byte has an opcode
  have hassigned : ∀ n < 0x61, maxDirect < n → (Opcode.ofByte? (UInt8.ofNat n)).isSome := by
    decide +kernel
  obtain ⟨hnone, hlt⟩ := h
  simp only [isCounted, opcode, decide_eq_true_eq, UInt8.lt_iff_toNat_lt]
  by_contra hle
  have hsome := hassigned byte.toNat (Nat.lt_succ_of_le (Nat.not_lt.1 hle)) hlt
  rw [UInt8.ofNat_toNat, hnone] at hsome
  exact absurd hsome (by simp)

theorem operations_singleton (i : Instruction) :
    operations [i] = if i.isCounted then 1 else 0 := by
  simp [operations, List.countP_cons]

theorem lt_of_isCounted {count most : Nat} (h : count + operations [i] ≤ most)
    (hi : i.isCounted = true) : count < most := by
  rwa [operations_singleton, if_pos hi] at h

theorem operations_push {form : PushForm} {data : Bytes} (h : (push form data).Readable) :
    operations [push form data] = 0 := by
  rw [operations_singleton, isCounted_eq_false h rfl]
  rfl

end Instruction

open Instruction (operations)

/-- The state with an instruction counted. -/
def State.counted (s : State) (i : Instruction) : State :=
  { s with opCount := s.opCount + operations [i] }

namespace Machine

variable (m : Machine)

/-! ### Carrying out -/

/-- What an instruction does where it is not passed over, apart from being measured and counted. -/
def carryOut : Instruction → Effect Unit
  | .push _ data => onMain (Stack.push m.rules.capacity data)
  | .operation op => m.perform op
  | .unassigned byte => throw (.invalidOpcode byte)

/-- What an instruction does to the main stack, if it looks at nothing else. -/
def mainAction? : Instruction → Option (Stack.Action Unit)
  | .push _ data => some (Stack.push m.rules.capacity data)
  | .unassigned byte => some (throw (.invalidOpcode byte))
  | .operation op =>
    match op with
    | .constant c => some (Stack.pushNumber m.rules.capacity c.value)
    | .nop _ => some (pure ())
    | .verify => some (Stack.verifyTop .verify)
    | .giveUp => some (throw .giveUp)
    | .shuffle s => some (Stack.shuffle m.rules.capacity s)
    | .equal => some (m.ask .equal)
    | .unary u => some (Stack.unary m.rules.capacity u)
    | .binary b => some (Stack.binary m.rules.capacity b)
    | .within => some (Stack.within m.rules.capacity)
    | .hash h => some (Stack.mapTop m.rules.capacity (m.primitives.hash h))
    | .checkSig => some (m.ask .checkSig)
    | .checkMultisig => some (m.ask .checkMultisig)
    | .verified c => some do
      m.ask c
      Stack.verifyTop (.verified c)
    | .lockTime _ => some Stack.lockTime
    | .reserved _ | .forbidden _ => some (throw (.invalidOpcode op.toByte))
    | .disabled _ => some (throw (.disabledOpcode op.toByte))
    | .branch _ | .transfer _ | .codeSeparator => none

variable {m} {i : Instruction} {s : State}

theorem carryOut_eq_onMain {action : Stack.Action Unit} (h : m.mainAction? i = some action) :
    m.carryOut i = onMain action := by
  cases i with
  | push form data => rw [← Option.some.inj h]; rfl
  | unassigned byte => rw [← Option.some.inj h]; rfl
  | operation op =>
    cases op with
    | branch b => exact absurd h (by simp [mainAction?])
    | transfer t => exact absurd h (by simp [mainAction?])
    | codeSeparator => exact absurd h (by simp [mainAction?])
    | _ => rw [← Option.some.inj h]; rfl

theorem mainAction?_eq_none (h : m.mainAction? i = none) :
    (∃ b, i = .operation (.branch b)) ∨ (∃ t, i = .operation (.transfer t)) ∨
      i = .operation .codeSeparator := by
  cases i with
  | push form data => exact absurd h (by simp [mainAction?])
  | unassigned byte => exact absurd h (by simp [mainAction?])
  | operation op =>
    cases op with
    | branch b => exact .inl ⟨b, rfl⟩
    | transfer t => exact .inr (.inl ⟨t, rfl⟩)
    | codeSeparator => exact .inr (.inr rfl)
    | _ => exact absurd h (by simp [mainAction?])

theorem nest_of_mainAction? {action : Stack.Action Unit} (h : m.mainAction? i = some action)
    (depth : Nat) : i.nest depth = some depth := by
  cases i with
  | push form data => rfl
  | unassigned byte => rfl
  | operation op =>
    cases op with
    | branch b => exact absurd h (by simp [mainAction?])
    | _ => rfl

theorem openBranch_apply (sense : Bool) (s : State) :
    openBranch sense s =
      if s.isExecuting then
        match s.main with
        | [] => .error .badStackOperation s
        | top :: rest =>
          .ok () { s with main := rest, frames := (Number.isTrue top == sense) :: s.frames }
      else .ok () { s with frames := false :: s.frames } := by
  obtain ⟨pc, main, alt, frames, opCount, codeSeparator, status⟩ := s
  simp only [openBranch, Effect.bind_apply, Effect.get_apply, Effect.ite_apply]
  split
  · cases main <;> rfl
  · rfl

theorem toAlt_apply (s : State) :
    m.transfer .toAlt s = match s.main with
      | [] => .error .badStackOperation s
      | item :: rest =>
        match Stack.push m.rules.capacity item s.alt with
        | .ok _ alt => .ok () { s with main := rest, alt }
        | .error fault alt => .error fault { s with main := rest, alt } := by
  obtain ⟨pc, main, alt, frames, opCount, codeSeparator, status⟩ := s
  cases main with
  | nil => rfl
  | cons item rest =>
    simp only [transfer, Effect.bind_apply, onMain, onAlt, Stack.pop]
    cases Stack.push m.rules.capacity item alt <;> rfl

theorem fromAlt_apply (s : State) :
    m.transfer .fromAlt s = match s.alt with
      | [] => .error .badStackOperation s
      | item :: rest =>
        match Stack.push m.rules.capacity item s.main with
        | .ok _ main => .ok () { s with main, alt := rest }
        | .error fault main => .error fault { s with main, alt := rest } := by
  obtain ⟨pc, main, alt, frames, opCount, codeSeparator, status⟩ := s
  cases alt with
  | nil => rfl
  | cons item rest =>
    simp only [transfer, Effect.bind_apply, onMain, onAlt, Stack.pop]
    cases Stack.push m.rules.capacity item main <;> rfl

/-- What moving an item makes of the main stack and the alternate one. -/
def moved (capacity : Stack.Capacity) :
    Transfer → Stack → Stack → EStateM.Result Fault (Stack × Stack) Unit
  | .toAlt, [], alt => .error .badStackOperation ([], alt)
  | .toAlt, item :: main, alt =>
    match Stack.push capacity item alt with
    | .ok _ alt => .ok () (main, alt)
    | .error fault alt => .error fault (main, alt)
  | .fromAlt, main, [] => .error .badStackOperation (main, [])
  | .fromAlt, main, item :: alt =>
    match Stack.push capacity item main with
    | .ok _ main => .ok () (main, alt)
    | .error fault main => .error fault (main, alt)

/-- **Moving an item looks at the stacks alone**, and changes nothing else. -/
theorem transfer_apply (t : Transfer) (s : State) :
    m.transfer t s = match moved m.rules.capacity t s.main s.alt with
      | .ok _ (main, alt) => .ok () { s with main, alt }
      | .error fault (main, alt) => .error fault { s with main, alt } := by
  obtain ⟨pc, main, alt, frames, opCount, codeSeparator, status⟩ := s
  cases t with
  | toAlt =>
    rw [toAlt_apply]
    cases main with
    | nil => rfl
    | cons item main =>
      dsimp only [moved]
      cases Stack.push m.rules.capacity item alt <;> rfl
  | fromAlt =>
    rw [fromAlt_apply]
    cases alt with
    | nil => rfl
    | cons item alt =>
      dsimp only [moved]
      cases Stack.push m.rules.capacity item main <;> rfl

/-- What was left satisfies the property, whether there was a fault or not. -/
def Leaves (P : State → Prop) : EStateM.Result Fault State Unit → Prop
  | .ok _ t => P t
  | .error _ t => P t

/-- Carrying out an instruction neither moves the counter, nor ends the run, nor counts. -/
theorem leaves_carryOut (i : Instruction) (s : State) :
    Leaves (fun t => t.pc = s.pc ∧ t.status = s.status ∧ t.opCount = s.opCount)
      (m.carryOut i s) := by
  cases haction : m.mainAction? i with
  | some action =>
    rw [carryOut_eq_onMain haction, Effect.onMain_apply]
    cases action s.main <;> exact ⟨rfl, rfl, rfl⟩
  | none =>
    have hopen : ∀ sense, Leaves
        (fun t => t.pc = s.pc ∧ t.status = s.status ∧ t.opCount = s.opCount)
        (openBranch sense s) := by
      intro sense
      rw [openBranch_apply]
      split
      · split <;> exact ⟨rfl, rfl, rfl⟩
      · exact ⟨rfl, rfl, rfl⟩
    rcases mainAction?_eq_none haction with ⟨b, rfl⟩ | ⟨t, rfl⟩ | rfl
    · cases b with
      | ifTrue => exact hopen true
      | ifFalse => exact hopen false
      | otherwise =>
        simp only [carryOut, perform, branch, turnBranch]
        split <;> exact ⟨rfl, rfl, rfl⟩
      | endIf =>
        simp only [carryOut, perform, branch, closeBranch]
        split <;> exact ⟨rfl, rfl, rfl⟩
    · simp only [carryOut, perform, transfer_apply]
      split <;> exact ⟨rfl, rfl, rfl⟩
    · exact ⟨rfl, rfl, rfl⟩

/-! ### Measuring and counting -/

theorem count_apply (s : State) :
    count s = if s.opCount < maxOperations then .ok () { s with opCount := s.opCount + 1 }
      else .error .opCount { s with opCount := s.opCount + 1 } := by
  unfold count
  by_cases h : s.opCount < maxOperations
  · simp only [if_pos h, if_neg (Nat.not_lt.2 (Nat.succ_le_of_lt h))]
  · simp only [if_neg h, if_pos (Nat.lt_succ_of_le (Nat.not_lt.1 h))]

theorem eq_of_code {m' : Machine} (hdigest : m'.digest = m.digest)
    (hprimitives : m'.primitives = m.primitives) (hrules : m'.rules = m.rules) :
    m' = ⟨m'.code, m.digest, m.primitives, m.rules, m'.length_code⟩ := by
  rw [← hdigest, ← hprimitives, ← hrules]

theorem obey_congr {m' : Machine} (hdigest : m'.digest = m.digest)
    (hprimitives : m'.primitives = m.primitives) (hrules : m'.rules = m.rules) :
    m'.obey = m.obey := by
  rw [eq_of_code hdigest hprimitives hrules]
  rfl

/-- **An instruction that is neither too long nor one too many** is counted, and carried out unless
it is passed over. -/
theorem obey_eq (hi : i.Readable) (hshort : i.Short)
    (hcount : i.isCounted = true → s.opCount < maxOperations) :
    m.obey i s = if i.isUnconditional || s.isExecuting then m.carryOut i (s.counted i)
      else .ok () (s.counted i) := by
  cases i with
  | push form data =>
    have hcounted : s.counted (.push form data) = s := by
      rw [State.counted, Instruction.operations_push hi]
      rfl
    rw [hcounted]
    simp only [obey, if_neg (Nat.not_lt.2 hshort), Effect.bind_apply, Effect.pure_apply,
      Effect.get_apply, Effect.ite_apply]
    rfl
  | operation op =>
    rw [State.counted, Instruction.operations_singleton]
    simp only [obey, Effect.bind_apply, Effect.get_apply, Effect.pure_apply, Effect.ite_apply,
      count_apply]
    cases hop : op.isCounted with
    | false =>
      have hi : (Instruction.operation op).isCounted = false := hop
      simp only [hi, Bool.false_eq_true, ↓reduceIte]
      rfl
    | true =>
      have hi : (Instruction.operation op).isCounted = true := hop
      simp only [hi, ↓reduceIte, if_pos (hcount hi)]
      rfl
  | unassigned byte =>
    have hcounted := Instruction.isCounted_unassigned hi
    have hone := Instruction.operations_singleton (.unassigned byte)
    rw [hcounted, if_pos rfl] at hone
    rw [State.counted, hone]
    simp only [obey, Effect.bind_apply, Effect.get_apply, Effect.pure_apply, Effect.ite_apply,
      count_apply, if_pos (hcount hcounted)]
    rfl

theorem obey_push_of_lt {form : PushForm} {data : Bytes} (h : Stack.maxItemSize < data.length)
    (s : State) : m.obey (.push form data) s = .error (.pushSize data.length) s := by
  simp only [obey, gt_iff_lt, if_pos h]
  rfl

/-- **An operation too many** fails before anything else happens, whatever it is. -/
theorem obey_of_spent (hi : i.Readable) (hcounted : i.isCounted = true)
    (hs : maxOperations ≤ s.opCount) : m.obey i s = .error .opCount (s.counted i) := by
  have hcount : count s = .error .opCount (s.counted i) := by
    rw [count_apply, if_neg (Nat.not_lt.2 hs), State.counted, Instruction.operations_singleton,
      if_pos hcounted]
  cases i with
  | push form data => exact absurd (Instruction.isCounted_eq_false hi rfl) (by simp [hcounted])
  | operation op =>
    have hop : op.isCounted = true := hcounted
    simp only [obey, hop, ↓reduceIte, Effect.bind_apply, hcount]
  | unassigned byte => simp only [obey, Effect.bind_apply, hcount]

/-- An instruction that is too long or one too many fails before anything else happens. -/
theorem obey_refused (hi : i.Readable)
    (h : ¬ (i.Short ∧ s.opCount + operations [i] ≤ maxOperations))
    (hs : s.opCount ≤ maxOperations) :
    ∃ fault, m.obey i s = .error fault (s.counted i) := by
  by_cases hspent : i.isCounted = true ∧ maxOperations ≤ s.opCount
  · exact ⟨.opCount, obey_of_spent hi hspent.1 hspent.2⟩
  · have hcount : s.opCount + operations [i] ≤ maxOperations := by
      rw [Instruction.operations_singleton]
      split
      · exact Nat.succ_le_of_lt (Nat.not_le.1 fun hle => hspent ⟨‹_›, hle⟩)
      · exact hs
    -- there is an operation left, so the instruction is a push that holds too many bytes
    obtain ⟨form, data, rfl, hlong⟩ :=
      Instruction.exists_push_of_not_short fun hshort => h ⟨hshort, hcount⟩
    rw [State.counted, Instruction.operations_push hi]
    exact ⟨.pushSize data.length, obey_push_of_lt hlong s⟩

/-- **Every instruction that counts is counted**, whether it is carried out, passed over or fails;
and obeying an instruction neither moves the counter nor ends the run. -/
theorem leaves_obey (hi : i.Readable) (s : State) :
    Leaves (fun t => t.pc = s.pc ∧ t.status = s.status ∧
      t.opCount = s.opCount + operations [i]) (m.obey i s) := by
  by_cases hspent : i.isCounted = true ∧ maxOperations ≤ s.opCount
  · rw [obey_of_spent hi hspent.1 hspent.2]
    exact ⟨rfl, rfl, rfl⟩
  · by_cases hshort : i.Short
    · rw [obey_eq hi hshort fun hcounted => Nat.not_le.1 fun hle => hspent ⟨hcounted, hle⟩]
      split
      · exact leaves_carryOut i (s.counted i)
      · exact ⟨rfl, rfl, rfl⟩
    · obtain ⟨form, data, rfl, hlong⟩ := Instruction.exists_push_of_not_short hshort
      rw [obey_push_of_lt hlong, Instruction.operations_push hi]
      exact ⟨rfl, rfl, rfl⟩

/-! ### Two machines side by side -/

/-- A relation between states and one between outcomes that measuring and counting an instruction
respect, and whether it is passed over. -/
structure Lifts (S : State → State → Prop)
    (R : EStateM.Result Fault State Unit → EStateM.Result Fault State Unit → Prop) : Prop where
  /-- Related states are related outcomes. -/
  ok {s u : State} : S s u → R (.ok () s) (.ok () u)
  /-- So they are with the same fault. -/
  error {s u : State} (fault : Fault) : S s u → R (.error fault s) (.error fault u)
  /-- Both states are in a branch that is executed, or neither is. -/
  isExecuting_eq {s u : State} : S s u → u.isExecuting = s.isExecuting
  /-- What comes after an operation was counted leaves related outcomes, if it does so from all
  related states. -/
  count_bind {s u : State} {f g : Unit → Effect Unit} : S s u →
    (∀ t v, S t v → R (f () t) (g () v)) → R ((count >>= f) s) ((count >>= g) u)

/-- **Machines that carry out an instruction alike obey it alike.** -/
theorem Lifts.obey {S : State → State → Prop}
    {R : EStateM.Result Fault State Unit → EStateM.Result Fault State Unit → Prop}
    (h : Lifts S R) {m' : Machine} {u : State}
    (hcarry : i.Short → ∀ t v, S t v → R (m.carryOut i t) (m'.carryOut i v)) (hs : S s u) :
    R (m.obey i s) (m'.obey i u) := by
  cases i with
  | push form data =>
    simp only [Machine.obey, Effect.ite_apply, Effect.bind_apply, Effect.throw_apply,
      Effect.get_apply, h.isExecuting_eq hs]
    split
    · exact h.error _ hs
    · rename_i hshort
      split
      · exact hcarry (Nat.not_lt.1 hshort) s u hs
      · exact h.ok hs
  | operation op =>
    have hrest : ∀ t v, S t v → R
        ((do if op.isUnconditional || (← get).isExecuting then m.perform op : Effect Unit) t)
        ((do if op.isUnconditional || (← get).isExecuting then m'.perform op : Effect Unit) v) := by
      intro t v hnext
      simp only [Effect.bind_apply, Effect.get_apply, Effect.ite_apply, h.isExecuting_eq hnext]
      split
      · exact hcarry trivial t v hnext
      · exact h.ok hnext
    simp only [Machine.obey, Effect.ite_apply]
    split
    · exact h.count_bind hs hrest
    · exact hrest s u hs
  | unassigned byte =>
    refine h.count_bind hs fun t v hnext => ?_
    simp only [Effect.bind_apply, Effect.get_apply, Effect.ite_apply, h.isExecuting_eq hnext]
    split
    · exact h.error _ hnext
    · exact h.ok hnext

end Machine

end SpendScript
