import SpendScript.Proofs.Machine.Calls
import SpendScript.Proofs.Stack.Hereditary

/-!
# The faults of a run

Whatever a step does is put together from a few actions, each with few faults of its own.  All of
these are *inner* faults (`Fault.isInner`), those that a run by itself can end with: code that is
too long is refused before the run, and a run that nobody stops is not stopped.  Without a capacity,
no action finds a stack full.

* `Effect.Within.bind` : actions one after the other have the faults of these;
* `Stack.Hereditary.mainAction?` : what an instruction does to the main stack inherits what single
  steps have in common;
* `Machine.within_obey`, `Machine.spent_of_obey` : the faults of every instruction, and when there
  are too many operations;
* `Machine.isInner_of_run` : a run fails with inner faults only.
-/

namespace SpendScript

open Effect (onMain onAlt)

/-- A run by itself can end with the fault. -/
def Fault.isInner : Fault → Bool
  | .codeSize _ | .cancelled => false
  | _ => true

/-- All faults of actions at a capacity are in `F`. -/
structure Fault.Covered (capacity : Stack.Capacity) (F : Fault → Prop) : Prop where
  /-- Those that have nothing to do with the capacity, nor with the number of operations. -/
  of_isInner : ∀ fault, fault.isInner = true → fault ≠ .stackSize → fault ≠ .opCount → F fault
  /-- That of a stack which is full. -/
  of_capacity : capacity ≠ none → F .stackSize

theorem Fault.Covered.of_isOwn {capacity : Stack.Capacity} {F : Fault → Prop} {fault : Fault}
    (hF : Covered capacity F) (h : fault.isOwn = true) : F fault := by
  have hinner : fault.isInner = true ∧ fault ≠ .stackSize ∧ fault ≠ .opCount := by
    cases fault <;> simp_all [isOwn, isInner]
  exact hF.of_isInner fault hinner.1 hinner.2.1 hinner.2.2

namespace Effect

variable {σ α β : Type} {F : Fault → Prop}

/-- The action answered or failed with a fault in `F`. -/
def WithinResult (F : Fault → Prop) : EStateM.Result Fault σ α → Prop
  | .ok _ _ => True
  | .error fault _ => F fault

/-- The action fails with faults in `F` only. -/
def Within (F : Fault → Prop) (action : EStateM Fault σ α) : Prop :=
  ∀ s, WithinResult F (action s)

theorem Within.pure (a : α) : Within F (Pure.pure a : EStateM Fault σ α) :=
  fun _ => trivial

theorem Within.throw {fault : Fault} (h : F fault) :
    Within F (MonadExcept.throw fault : EStateM Fault σ α) :=
  fun _ => h

theorem Within.bind {action : EStateM Fault σ α} {f : α → EStateM Fault σ β}
    (h : Within F action) (hf : ∀ a, Within F (f a)) : Within F (action >>= f) := by
  intro s
  have hfirst := h s
  rw [bind_apply]
  cases haction : action s with
  | ok a t => exact hf a t
  | error fault t =>
    rw [haction] at hfirst
    exact hfirst

theorem Within.ite {c : Prop} [Decidable c] {x y : EStateM Fault σ α} (hx : Within F x)
    (hy : Within F y) : Within F (if c then x else y) := by
  split
  · exact hx
  · exact hy

theorem Within.onMain {action : Stack.Action α} (h : Within F action) :
    Within F (onMain action) := by
  intro s
  have hmain := h s.main
  rw [onMain_apply]
  cases haction : action s.main with
  | ok a main => trivial
  | error fault main =>
    rw [haction] at hmain
    exact hmain

theorem Within.onAlt {action : Stack.Action α} (h : Within F action) : Within F (onAlt action) := by
  intro s
  have halt := h s.alt
  unfold Effect.onAlt
  cases haction : action s.alt with
  | ok a alt => trivial
  | error fault alt =>
    rw [haction] at halt
    exact halt

end Effect

open Effect (Within)

/-! ### Actions on a stack -/

namespace Stack

variable {capacity : Capacity} {F : Fault → Prop}

theorem covered_of_objection? (hF : Fault.Covered capacity F) {item : Bytes} {s : Stack}
    {fault : Fault} (h : objection? capacity item s = some fault) : F fault := by
  unfold objection? at h
  split_ifs at h with hfull
  · rw [← Option.some.inj h]
    refine hF.of_capacity fun hnone => ?_
    rw [hnone] at hfull
    exact absurd hfull (by simp [isFull])
  · rw [← Option.some.inj h]
    exact hF.of_isInner _ rfl (by simp) (by simp)

/-- **Failing with some faults only is hereditary.** -/
theorem hereditary_within (hF : Fault.Covered capacity F) :
    Hereditary capacity fun action => Within F action where
  pure := .pure
  throw hown := .throw (hF.of_isOwn hown)
  bind := .bind
  require n s := by
    unfold require
    split
    · exact hF.of_isOwn rfl
    · trivial
  pop s := by
    cases s with
    | nil => exact hF.of_isOwn rfl
    | cons item s => trivial
  peek depth s := by
    unfold peek
    split
    · trivial
    · exact hF.of_isOwn rfl
  removeAt depth s := by
    unfold removeAt
    split
    · trivial
    · exact hF.of_isOwn rfl
  swap a b s := by
    unfold swap
    split
    · trivial
    · exact hF.of_isOwn rfl
  push item s := by
    unfold push
    split
    · exact covered_of_objection? hF ‹_›
    · trivial
  insertAt depth item s := by
    unfold insertAt
    split
    · exact hF.of_isOwn rfl
    · split
      · exact covered_of_objection? hF ‹_›
      · trivial

end Stack

/-! ### Instructions that look at the main stack alone -/

namespace Stack.Hereditary

variable {m : Machine} {P : {α : Type} → Action α → Prop}
  (h : Hereditary m.rules.capacity P)

include h

theorem checkSignature : P m.checkSignature :=
  h.bind (h.require 2) fun _ => h.bind h.pop fun _ => h.bind h.pop fun _ => h.pure _

theorem checkSignatures : P m.checkSignatures :=
  h.bind (h.popCount _ rfl) fun n => h.bind (h.popMany n) fun _ => h.bind (h.popCount _ rfl)
    fun k => h.bind (h.popMany k) fun _ => h.bind h.pop fun _ => h.pure _

theorem ask (c : Check) : P (m.ask c) := by
  cases c with
  | equal => exact h.equal
  | numEqual => exact h.binary .numEqual
  | checkSig => exact h.bind h.checkSignature fun _ => h.pushTruth _
  | checkMultisig => exact h.bind h.checkSignatures fun _ => h.pushTruth _

/-- **What an instruction does to the main stack inherits the property**, unless it counts the
items. -/
theorem mainAction? {i : Instruction} {action : Action Unit}
    (haction : m.mainAction? i = some action) (hi : i ≠ .operation (.shuffle .depth)) :
    P action := by
  cases i with
  | push form data =>
    obtain rfl := Option.some.inj haction
    exact h.push data
  | unassigned byte =>
    obtain rfl := Option.some.inj haction
    exact h.throw rfl
  | operation op =>
    cases op with
    | branch b => exact absurd haction (by simp [Machine.mainAction?])
    | transfer t => exact absurd haction (by simp [Machine.mainAction?])
    | codeSeparator => exact absurd haction (by simp [Machine.mainAction?])
    | constant c =>
      obtain rfl := Option.some.inj haction
      exact h.pushNumber _
    | nop n =>
      obtain rfl := Option.some.inj haction
      exact h.pure _
    | verify =>
      obtain rfl := Option.some.inj haction
      exact h.verifyTop rfl
    | shuffle sh =>
      obtain rfl := Option.some.inj haction
      exact h.shuffle fun hsh => hi (by rw [hsh])
    | equal =>
      obtain rfl := Option.some.inj haction
      exact h.ask .equal
    | unary u =>
      obtain rfl := Option.some.inj haction
      exact h.unary u
    | binary b =>
      obtain rfl := Option.some.inj haction
      exact h.binary b
    | within =>
      obtain rfl := Option.some.inj haction
      exact h.within
    | hash word =>
      obtain rfl := Option.some.inj haction
      exact h.mapTop _
    | checkSig =>
      obtain rfl := Option.some.inj haction
      exact h.ask .checkSig
    | checkMultisig =>
      obtain rfl := Option.some.inj haction
      exact h.ask .checkMultisig
    | verified c =>
      obtain rfl := Option.some.inj haction
      exact h.bind (h.ask c) fun _ => h.verifyTop rfl
    | lockTime l =>
      obtain rfl := Option.some.inj haction
      exact h.lockTime
    | giveUp | reserved r | forbidden f | disabled d =>
      obtain rfl := Option.some.inj haction
      exact h.throw rfl

end Stack.Hereditary

/-! ### Instructions -/

namespace Machine

variable {m : Machine} {F : Fault → Prop} {s : State} {fault : Fault}

theorem within_get : Within F (get : Effect State) :=
  fun _ => trivial

section

variable (hF : Fault.Covered m.rules.capacity F)

include hF

theorem within_openBranch (sense : Bool) : Within F (openBranch sense) := by
  have hpop : Within F Stack.popTruth := (Stack.hereditary_within hF).popTruth
  refine within_get.bind fun _ => .ite ?_ ?_
  · -- only the condition can fail, when there is none
    exact hpop.onMain.bind fun _ _ => trivial
  · exact fun _ => trivial

theorem within_branch (b : Branch) : Within F (m.branch b) := by
  have hunbalanced : F .unbalancedConditional := hF.of_isInner _ rfl (by simp) (by simp)
  cases b with
  | ifTrue => exact within_openBranch hF true
  | ifFalse => exact within_openBranch hF false
  | otherwise =>
    intro s
    simp only [branch, turnBranch]
    split
    · exact hunbalanced
    · trivial
  | endIf =>
    intro s
    simp only [branch, closeBranch]
    split
    · exact hunbalanced
    · trivial

theorem within_transfer (t : Transfer) : Within F (m.transfer t) := by
  have hstack := Stack.hereditary_within hF
  cases t with
  | toAlt => exact hstack.pop.onMain.bind fun _ => (hstack.push _).onAlt
  | fromAlt => exact hstack.pop.onAlt.bind fun _ => (hstack.push _).onMain

theorem within_carryOut (i : Instruction) : Within F (m.carryOut i) := by
  have hstack := Stack.hereditary_within hF
  cases haction : m.mainAction? i with
  | some action =>
    rw [carryOut_eq_onMain haction]
    by_cases hi : i = .operation (.shuffle .depth)
    · obtain rfl : Stack.shuffle m.rules.capacity .depth = action := by
        rw [hi] at haction
        exact Option.some.inj haction
      exact Within.onMain (.bind (fun _ => trivial) fun n => hstack.pushNumber n)
    · exact (hstack.mainAction? haction hi).onMain
  | none =>
    rcases mainAction?_eq_none haction with ⟨b, rfl⟩ | ⟨t, rfl⟩ | rfl
    · exact within_branch hF b
    · exact within_transfer hF t
    · exact fun _ => trivial

/-- **An instruction fails with these faults only**, unless it is an operation too many. -/
theorem within_obey (hops : F .opCount) (i : Instruction) : Within F (m.obey i) := by
  have hcount : Within F count := by
    intro s
    rw [count_apply]
    split
    · trivial
    · exact hops
  have hcarry := within_carryOut hF i
  cases i with
  | push form data =>
    have hpush : Within F (do
        if (← get).isExecuting then onMain (Stack.push m.rules.capacity data) : Effect Unit) :=
      within_get.bind fun _ => .ite hcarry (.pure _)
    have hlong : F (.pushSize data.length) := hF.of_isInner _ rfl (by simp) (by simp)
    exact .ite (.bind (.throw hlong) fun _ => hpush) hpush
  | operation op =>
    have hperform : Within F (do
        if op.isUnconditional || (← get).isExecuting then m.perform op : Effect Unit) :=
      within_get.bind fun _ => .ite hcarry (.pure _)
    exact .ite (hcount.bind fun _ => hperform) hperform
  | unassigned byte =>
    exact hcount.bind fun _ => within_get.bind fun _ => .ite hcarry (.pure _)

end

/-- **An instruction fails for the number of operations only if it is one too many.** -/
theorem spent_of_obey {i : Instruction} (hi : i.Readable) {t : State}
    (h : m.obey i s = .error .opCount t) : i.isCounted = true ∧ maxOperations ≤ s.opCount := by
  by_contra hleft
  by_cases hshort : i.Short
  · have hcovered : Fault.Covered m.rules.capacity (· ≠ .opCount) :=
      ⟨fun _ _ _ h => h, fun _ => by simp⟩
    rw [obey_eq hi hshort fun hcounted => Nat.not_le.1 fun hle => hleft ⟨hcounted, hle⟩] at h
    split at h
    · have hwithin := within_carryOut hcovered i (s.counted i)
      rw [h] at hwithin
      exact hwithin rfl
    · exact absurd h (by simp)
  · obtain ⟨form, data, rfl, hlong⟩ := Instruction.exists_push_of_not_short hshort
    rw [obey_push_of_lt hlong] at h
    exact absurd h (by simp)

/-! ### Runs -/

theorem covered_isInner (capacity : Stack.Capacity) :
    Fault.Covered capacity fun fault => fault.isInner = true :=
  ⟨fun _ h _ _ => h, fun _ => rfl⟩

variable (m)

/-- If the machine has failed, then with an inner fault. -/
def FailedInside (s : State) : Prop :=
  ∀ fault, s.status = .failed fault → fault.isInner = true

theorem failedInside_of_ne (h : ∀ fault, s.status ≠ .failed fault) : FailedInside s :=
  fun fault hfault => absurd hfault (h fault)

theorem failedInside_of_eq (hs : s.status = .failed fault) (h : fault.isInner = true) :
    FailedInside s := by
  intro fault' hfault
  rw [← Status.failed.inj (hs.symm.trans hfault)]
  exact h

theorem failedInside_next (hcapacity : m.rules.capacity = some Stack.maxItems) (hs : s.Regular)
    (h : FailedInside s) : FailedInside (m.next s) := by
  by_cases hrunning : s.status = .running
  · have hmove := move (m := m) hrunning
    generalize m.next s = t at hmove
    cases hmove with
    | finish => exact failedInside_of_ne (by simp)
    | unclosed => exact failedInside_of_eq rfl rfl
    | cut => exact failedInside_of_eq rfl rfl
    | crowded => exact failedInside_of_eq rfl rfl
    | @fault i fault t _ hobey =>
      have hinner := within_obey (covered_isInner m.rules.capacity) rfl i (s.behind i)
      rw [hobey] at hinner
      exact failedInside_of_eq rfl hinner
    | @onward i t hreads hobey =>
      -- an instruction that was obeyed leaves the machine running
      have houtcome := hreads.obeyed hcapacity (hs hrunning)
      rw [hobey] at houtcome
      have hstatus : t.status = .running := houtcome.1.status_eq.trans hrunning
      exact failedInside_of_ne (by simp [hstatus])
  · rwa [next_of_halted hrunning]

theorem failedInside_iterate (hcapacity : m.rules.capacity = some Stack.maxItems) (n : Nat)
    (hs : s.Regular) (h : FailedInside s) : FailedInside (m.next^[n] s) := by
  induction n generalizing s with
  | zero => exact h
  | succ n ih =>
    have hnext : (m.next s).Regular := (invariant_regular hcapacity).step hs
    exact ih hnext (failedInside_next m hcapacity hs h)

/-- **A run fails with inner faults only.** -/
theorem isInner_of_run (hcapacity : m.rules.capacity = some Stack.maxItems)
    (h : m.run = .error fault) : fault.isInner = true := by
  have hlast := failedInside_iterate m hcapacity (m.stepsLeft {}) regular_start
    (failedInside_of_ne (by simp))
  have hanswer : (m.execute {}).2.answer = .error fault := h
  rw [← execute_eq] at hlast
  unfold State.answer at hanswer
  split at hanswer
  · rename_i fault' hstatus
    rw [← Except.error.inj hanswer]
    exact hlast fault' hstatus
  · exact absurd hanswer (by simp)

end Machine

end SpendScript
