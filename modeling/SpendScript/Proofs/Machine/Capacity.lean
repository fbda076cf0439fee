import SpendScript.Crypto.ScriptSignature
import SpendScript.Proofs.Machine.Faults
import SpendScript.Proofs.Machine.Limits
import SpendScript.Proofs.Machine.Pushes
import SpendScript.Proofs.Stack.Capacity

/-!
# The room on both stacks together

Each stack has a capacity of its own, which is checked whenever an item is added, and both stacks
together are checked behind every instruction.  The first check is not seen from outside: a machine
without capacities (`Machine.unlimited`) finds the same faults, and what the capacities refuse is
what leaves too many items on both stacks together.

* `Machine.limited_obey` : one instruction, with capacities and without;
* `Machine.step_unlimited` : a step, from what the machine without capacities makes of it;
* `Machine.stackSize_calls` : so much for every state that a machine comes to.
-/

namespace SpendScript

open Effect (Limited)
open Instruction (Pushes codeOf)
open Stack (Agree Capped Takes)

/-- The number of items on both stacks. -/
def State.items (s : State) : Nat :=
  s.main.length + s.alt.length

namespace Machine

/-- The machine without a capacity of its stacks. -/
def unlimited (m : Machine) : Machine :=
  { m with rules := { m.rules with capacity := none } }

/-- A fault stops the machine. -/
def stopped : EStateM.Result Fault State Unit → EStateM.Result Fault State Unit
  | .ok _ t => .ok () t
  | .error fault t => .error fault { t with status := .failed fault }

variable {m : Machine} {i : Instruction} {s : State} {first : UInt8} {rest : Bytes}

/-! ### Instructions that look at the main stack alone -/

theorem takes_checkSignature : Takes 2 m.checkSignature fun _ => True :=
  (Stack.takes_require 2).bind (n := 2) fun _ _ => Stack.takes_pop.bind (n := 1) fun _ _ =>
    Stack.takes_pop.bind (n := 0) fun _ _ => .pure trivial

theorem takes_checkSignatures : Takes 3 m.checkSignatures fun _ => True :=
  (Stack.takes_popCount _ _).bind (n := 2) fun n _ => (Stack.takes_popMany n).bind (n := 2)
    fun _ _ => (Stack.takes_popCount _ _).bind (n := 1) fun k _ => (Stack.takes_popMany k).bind
      (n := 1) fun _ _ => Stack.takes_pop.bind (n := 0) fun _ _ => .pure trivial

section

variable (hcapacity : m.rules.capacity = some Stack.maxItems)

include hcapacity

theorem agree_ask (c : Check) : Agree 0 (m.ask c) (m.unlimited.ask c) := by
  cases c with
  | equal =>
    simp only [ask, hcapacity]
    exact Stack.agree_equal
  | numEqual =>
    simp only [ask, hcapacity]
    exact Stack.agree_binary .numEqual
  | checkSig =>
    simp only [ask, hcapacity]
    exact .take takes_checkSignature fun _ _ => Stack.agree_push _
  | checkMultisig =>
    simp only [ask, hcapacity]
    exact .take takes_checkSignatures fun _ _ => Stack.agree_push _

/-- **What an instruction does to the main stack, with a capacity and without.** -/
theorem capped_mainAction? (hshort : i.Short) {action : Stack.Action Unit}
    (haction : m.mainAction? i = some action) :
    ∃ action', m.unlimited.mainAction? i = some action' ∧ Capped action action' := by
  cases i with
  | push form data =>
    obtain rfl := Option.some.inj haction
    rw [hcapacity]
    exact ⟨_, rfl, Stack.capped_push hshort⟩
  | unassigned byte =>
    obtain rfl := Option.some.inj haction
    exact ⟨_, rfl, .of_agree (.refl _)⟩
  | operation op =>
    cases op with
    | branch b => exact absurd haction (by simp [mainAction?])
    | transfer t => exact absurd haction (by simp [mainAction?])
    | codeSeparator => exact absurd haction (by simp [mainAction?])
    | constant c =>
      obtain rfl := Option.some.inj haction
      have hvalue := c.natAbs_value_le
      have hlt : c.value.natAbs < Bytes.bound 6 := by
        simp only [Bytes.bound]
        omega
      rw [hcapacity]
      exact ⟨_, rfl, Stack.capped_push ((Number.length_encode_le hlt).trans (by decide))⟩
    | nop _ | verify | giveUp | lockTime _ | reserved _ | forbidden _ | disabled _ =>
      obtain rfl := Option.some.inj haction
      exact ⟨_, rfl, .of_agree (.refl _)⟩
    | shuffle sh =>
      obtain rfl := Option.some.inj haction
      rw [hcapacity]
      exact ⟨_, rfl, Stack.capped_shuffle sh⟩
    | equal =>
      obtain rfl := Option.some.inj haction
      exact ⟨_, rfl, .of_agree (agree_ask hcapacity .equal)⟩
    | unary u =>
      obtain rfl := Option.some.inj haction
      rw [hcapacity]
      exact ⟨_, rfl, .of_agree (Stack.agree_unary u)⟩
    | binary b =>
      obtain rfl := Option.some.inj haction
      rw [hcapacity]
      exact ⟨_, rfl, .of_agree (Stack.agree_binary b)⟩
    | within =>
      obtain rfl := Option.some.inj haction
      rw [hcapacity]
      exact ⟨_, rfl, .of_agree Stack.agree_within⟩
    | hash word =>
      obtain rfl := Option.some.inj haction
      rw [hcapacity]
      exact ⟨_, rfl, .of_agree (Stack.agree_mapTop _)⟩
    | checkSig =>
      obtain rfl := Option.some.inj haction
      exact ⟨_, rfl, .of_agree (agree_ask hcapacity .checkSig)⟩
    | checkMultisig =>
      obtain rfl := Option.some.inj haction
      exact ⟨_, rfl, .of_agree (agree_ask hcapacity .checkMultisig)⟩
    | verified c =>
      obtain rfl := Option.some.inj haction
      exact ⟨_, rfl, .of_agree (agree_ask hcapacity c).bind⟩

/-! ### The others -/

/-- An item finds room on the other stack, since it has left its own. -/
theorem transfer_unlimited (t : Transfer) (hroom : s.items ≤ Stack.maxItems) :
    m.transfer t s = m.unlimited.transfer t s := by
  have hnone : m.unlimited.rules.capacity = none := rfl
  unfold State.items at hroom
  cases t with
  | toAlt =>
    rw [toAlt_apply, toAlt_apply, hcapacity, hnone]
    cases hitems : s.main with
    | nil => rfl
    | cons item rest =>
      rw [hitems, List.length_cons] at hroom
      have hpush := Stack.push_eq_of_lt (s := s.alt) (by omega) item
      simp only [hpush]
  | fromAlt =>
    rw [fromAlt_apply, fromAlt_apply, hcapacity, hnone]
    cases hitems : s.alt with
    | nil => rfl
    | cons item rest =>
      rw [hitems, List.length_cons] at hroom
      have hpush := Stack.push_eq_of_lt (s := s.main) (by omega) item
      simp only [hpush]

theorem limited_carryOut (hshort : i.Short) (hmain : Stack.Bounded s.main)
    (hroom : s.items ≤ Stack.maxItems) :
    Limited State.items (m.carryOut i s) (m.unlimited.carryOut i s) := by
  cases haction : m.mainAction? i with
  | some action =>
    obtain ⟨action', haction', hcapped⟩ := capped_mainAction? hcapacity hshort haction
    have hlimited := hcapped s.main hmain
    rw [carryOut_eq_onMain haction, carryOut_eq_onMain haction', Effect.onMain_apply,
      Effect.onMain_apply]
    generalize action s.main = r at hlimited
    generalize action' s.main = r' at hlimited
    cases hlimited with
    | same => exact .same _
    | full _ _ hcrowded => exact .full _ _ (Nat.lt_of_lt_of_le hcrowded (Nat.le_add_right _ _))
  | none =>
    rcases mainAction?_eq_none haction with ⟨b, rfl⟩ | ⟨t, rfl⟩ | rfl
    · have hbranch : m.unlimited.branch b = m.branch b := by cases b <;> rfl
      simp only [carryOut, perform, hbranch]
      exact .same _
    · simp only [carryOut, perform, transfer_unlimited hcapacity t hroom]
      exact .same _
    · exact .same _

/-- States that are the same, and have room on both stacks. -/
def Roomy (s u : State) : Prop :=
  u = s ∧ Stack.Bounded s.main ∧ s.items ≤ Stack.maxItems

omit hcapacity in
theorem lifts_limited : Lifts Roomy (Limited State.items) where
  ok := by
    rintro s _ ⟨rfl, -⟩
    exact .same _
  error := by
    rintro s _ fault ⟨rfl, -⟩
    exact .same _
  isExecuting_eq := by
    rintro s _ ⟨rfl, -⟩
    rfl
  count_bind := by
    rintro s _ f g ⟨rfl, hmain, hroom⟩ hnext
    refine .bind fun _ t hcount => ?_
    rw [count_apply] at hcount
    split at hcount
    · obtain ⟨-, rfl⟩ := EStateM.Result.ok.inj hcount
      exact hnext _ _ ⟨rfl, hmain, hroom⟩
    · exact absurd hcount (by simp)

/-- **One instruction, with capacities and without.** -/
theorem limited_obey (i : Instruction) (hmain : Stack.Bounded s.main)
    (hroom : s.items ≤ Stack.maxItems) :
    Limited State.items (m.obey i s) (m.unlimited.obey i s) := by
  refine lifts_limited.obey ?_ (show Roomy s s from ⟨rfl, hmain, hroom⟩)
  rintro hshort t _ ⟨rfl, hmain, hroom⟩
  exact limited_carryOut hcapacity hshort hmain hroom

theorem limited_attempt (hmain : Stack.Bounded s.main) (hroom : s.items ≤ Stack.maxItems) :
    Limited State.items (m.attempt first rest s) (m.unlimited.attempt first rest s) := by
  unfold attempt
  cases Instruction.read first rest with
  | truncated size => exact .same _
  | complete i size =>
    exact limited_obey (s := { s with pc := s.pc + size }) hcapacity i hmain hroom

end

/-! ### Steps -/

theorem attempt_unlimited_ne (t : State) :
    m.unlimited.attempt first rest s ≠ .error .stackSize t := by
  intro hfault
  have hcovered : Fault.Covered m.unlimited.rules.capacity (· ≠ .stackSize) :=
    ⟨fun _ _ h _ => h, fun h => absurd rfl h⟩
  unfold attempt at hfault
  cases hread : Instruction.read first rest with
  | truncated size => exact absurd hfault (by simp [hread])
  | complete i size =>
    have hwithin := within_obey hcovered (by simp) i { s with pc := s.pc + size }
    simp only [hread] at hfault
    rw [hfault] at hwithin
    exact hwithin rfl

theorem step_eq_of_drop (hs : s.status = .running) (hcode : m.code.drop s.pc = first :: rest) :
    m.step s = stopped (match m.attempt first rest s with
      | .ok _ t => checkRoom t
      | .error fault t => .error fault t) := by
  have hadvance : m.step s = stopped (m.advance s) := by
    rw [step_eq_of_advance hs]
    cases m.advance s <;> rfl
  rw [hadvance]
  simp only [advance, hcode, Effect.bind_apply]
  cases m.attempt first rest s <;> rfl

/-- **A step, from what the instruction does without capacities.**  The stacks are full just if the
instruction leaves too many items on both together; otherwise the step leaves the same. -/
theorem step_unlimited (hcapacity : m.rules.capacity = some Stack.maxItems)
    (hs : s.status = .running) (hmain : Stack.Bounded s.main) (hroom : s.items ≤ Stack.maxItems)
    (hcode : m.code.drop s.pc = first :: rest) :
    ((∃ t, m.step s = .error .stackSize t) ↔
        ∃ t, m.unlimited.attempt first rest s = .ok () t ∧ Stack.maxItems < t.items) ∧
      ((∀ t, m.step s ≠ .error .stackSize t) →
        m.step s = stopped (m.unlimited.attempt first rest s)) := by
  have hlimited : Limited State.items (m.attempt first rest s) (m.unlimited.attempt first rest s) :=
    limited_attempt hcapacity hmain hroom
  have hnot : ∀ t, m.unlimited.attempt first rest s ≠ .error .stackSize t := attempt_unlimited_ne
  rw [step_eq_of_drop hs hcode]
  generalize m.attempt first rest s = r at hlimited
  generalize m.unlimited.attempt first rest s = r' at hlimited hnot
  cases hlimited with
  | full u _ hcrowded =>
    exact ⟨⟨fun _ => ⟨_, rfl, hcrowded⟩, fun _ => ⟨_, rfl⟩⟩, fun h => absurd rfl (h _)⟩
  | same =>
    cases r with
    | error fault t =>
      have hfault : fault ≠ .stackSize := by
        rintro rfl
        exact hnot t rfl
      exact ⟨by simp [stopped, hfault], fun _ => rfl⟩
    | ok _ t =>
      by_cases hcrowded : Stack.maxItems < t.items
      · have hcheck : checkRoom t = .error .stackSize t := if_pos hcrowded
        dsimp only
        rw [hcheck]
        exact ⟨⟨fun _ => ⟨_, rfl, hcrowded⟩, fun _ => ⟨_, rfl⟩⟩, fun h => absurd rfl (h _)⟩
      · have hcheck : checkRoom t = .ok () t := if_neg hcrowded
        dsimp only
        rw [hcheck]
        exact ⟨by simp [stopped, hcrowded], fun _ => rfl⟩

/-- **The stacks are full just if there are too many items on both together.**  However a machine
was driven, if it runs and comes to an instruction, it finds the stacks full if and only if the
instruction, without a capacity of either stack, succeeds and leaves too many items on both.
Otherwise the instruction does what it does without the capacities, fault and state included. -/
theorem stackSize_calls {primitives : Primitives} {digest : Digest} {code : Bytes}
    (hload : Machine.load primitives digest code = .ok m) (cs : List Call)
    (hs : (m.calls cs {}).status = .running)
    (hcode : m.code.drop (m.calls cs {}).pc = first :: rest) :
    ((∃ t, m.step (m.calls cs {}) = .error .stackSize t) ↔
        ∃ t, m.unlimited.attempt first rest (m.calls cs {}) = .ok () t ∧ 1000 < t.items) ∧
      ((∀ t, m.step (m.calls cs {}) ≠ .error .stackSize t) →
        m.step (m.calls cs {}) = stopped (m.unlimited.attempt first rest (m.calls cs {}))) := by
  have hcapacity := capacity_of_load hload
  have hlimits := (invariant_limits hcapacity).calls cs (limits_start m)
  exact step_unlimited hcapacity hs (hlimits.sound hs).main (hlimits.length_le_of_running hs) hcode

theorem iterate_next_ones (hcapacity : m.rules.capacity = some Stack.maxItems) {n : Nat}
    (hn : n ≤ Stack.maxItems) (hcode : List.replicate n 0x51 <+: m.code) :
    m.next^[n] {} = { pc := n, main := List.replicate n [1] } := by
  have hone : (Instruction.operation (.constant (.small 0))).Pushes [1] := by
    have hpushes := Instruction.pushes_constant (.small 0)
    rwa [show Number.encode (Constant.small 0).value = [1] by decide +kernel] at hpushes
  have hprogram : List.Forall₂ Pushes (List.replicate n (.operation (.constant (.small 0))))
        (List.replicate n [1]) ∧
      codeOf (List.replicate n (.operation (.constant (.small 0)))) = List.replicate n 0x51 := by
    clear hn hcode
    induction n with
    | zero => exact ⟨.nil, rfl⟩
    | succ n ih => exact ⟨.cons hone ih.1, congrArg (0x51 :: ·) ih.2⟩
  obtain ⟨hpushes, hcodeOf⟩ := hprogram
  have hiterate := iterate_next_pushes (s := {}) hcapacity hpushes (by rwa [hcodeOf]) rfl rfl
    (by rw [List.length_replicate]; exact hn)
  rw [List.length_replicate, List.reverse_replicate, hcodeOf, List.length_replicate,
    List.append_nil, Nat.zero_add] at hiterate
  exact hiterate

/-- There are a thousand items, and the next instruction copies one of them. -/
theorem stackSize_calls_thousand :
    ∃ m, Machine.load .standard .zero (List.replicate 1000 0x51 ++ [0x76]) = .ok m ∧
      (m.calls (List.replicate 1000 .step) {}).status = .running ∧
      m.code.drop (m.calls (List.replicate 1000 .step) {}).pc = [0x76] ∧
      ∃ t, m.step (m.calls (List.replicate 1000 .step) {}) = .error .stackSize t := by
  have hload : Machine.load .standard .zero (List.replicate 1000 0x51 ++ [0x76]) = .ok _ :=
    load_eq (by decide +kernel)
  have hcalls := @stackSize_calls _ 0x76 [] _ _ _ hload (List.replicate 1000 .step)
  have hstate := iterate_next_ones (n := 1000) (capacity_of_load hload) (Nat.le_refl _)
    (List.prefix_append _ _)
  rw [← calls_replicate_step] at hstate
  have hdrop : (List.replicate 1000 0x51 ++ [0x76] : Bytes).drop 1000 = [0x76] := by
    decide +kernel
  have hcopied : ∀ (m : Machine) (main : Stack),
      m.unlimited.attempt 0x76 [] { pc := 1000, main := [1] :: main } =
        .ok () { pc := 1001, main := [1] :: [1] :: main, opCount := 1 } := fun _ _ => rfl
  refine ⟨_, hload, ?_⟩
  rw [hstate, List.replicate_succ (n := 999)] at hcalls ⊢
  exact ⟨rfl, hdrop, (hcalls rfl hdrop).1.2 ⟨_, hcopied _ _, by decide +kernel⟩⟩

end Machine

end SpendScript
