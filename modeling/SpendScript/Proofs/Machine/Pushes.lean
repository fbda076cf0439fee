import SpendScript.Proofs.Instruction.Canonical
import SpendScript.Proofs.Machine.Straight
import SpendScript.Proofs.Number.SignMagnitude
import SpendScript.Proofs.Stack.Operands

/-!
# Pushes

Bytes and numbers are pushed by instructions of different kinds, the empty byte string among them by
an opcode of its own and small numbers by theirs.  What matters of them is the item that they leave
on the stack (`Instruction.Pushes`).

* `Instruction.pushes_pushOf`, `Instruction.pushes_pushNumber` : the pushes of bytes and numbers;
* `Machine.straight_pushes` : pushes one after the other leave their items, the last one on top;
* `Machine.iterate_next_pushes` : so they do where a machine comes to them.
-/

namespace SpendScript

open Stack (maxItems maxItemSize)

namespace Instruction

/-- The instruction leaves the item on the main stack and does nothing else. -/
structure Pushes (i : Instruction) (item : Bytes) : Prop where
  /-- The instruction can stand in code. -/
  readable : i.Readable
  /-- It does not hold too many bytes. -/
  short : i.Short
  /-- It pushes the item. -/
  mainAction?_eq : ∀ m : Machine, m.mainAction? i = some (Stack.push m.rules.capacity item)
  /-- The item is not too long. -/
  length_item_le : item.length ≤ maxItemSize
  /-- It does not count as an operation. -/
  operations_eq : operations [i] = 0
  /-- It takes up little more space than the item. -/
  length_bytes_le : i.bytes.length ≤ 5 + item.length

variable {i : Instruction} {form : PushForm} {data item : Bytes} {n : Int}
  {program : List Instruction} {items : List Bytes}

theorem Pushes.isCounted_eq (h : i.Pushes item) : i.isCounted = false := by
  have hzero := h.operations_eq
  rw [operations_singleton] at hzero
  simpa using hzero

theorem pushes_push (hreadable : (push form data).Readable) (hdata : data.length ≤ maxItemSize) :
    (push form data).Pushes data where
  readable := hreadable
  short := hdata
  mainAction?_eq _ := rfl
  length_item_le := hdata
  operations_eq := operations_push hreadable
  length_bytes_le := by
    have hbefore : form.before ≤ 5 := by
      cases form with
      | direct => decide
      | sized width => cases width <;> decide
    rw [length_bytes_push]
    omega

/-- **Bytes are pushed.** -/
theorem pushes_pushOf (h : data.length ≤ maxItemSize) : (pushOf data).Pushes data := by
  have hreadable : (pushOf data).Readable :=
    readable_pushOf (Nat.lt_of_le_of_lt h (by decide))
  obtain ⟨form, hform, -⟩ := exists_pushOf data
  rw [hform] at hreadable ⊢
  exact pushes_push hreadable h

theorem pushes_constant (c : Constant) :
    (operation (.constant c)).Pushes (Number.encode c.value) where
  readable := trivial
  short := trivial
  mainAction?_eq _ := rfl
  length_item_le := by
    have hvalue : c.value.natAbs < Bytes.bound 1 :=
      Nat.lt_of_le_of_lt c.natAbs_value_le (by decide)
    exact (Number.length_encode_le hvalue).trans (by decide)
  operations_eq := by
    cases c with
    | minusOne => rfl
    | small n => revert n; decide
  length_bytes_le := by
    show 1 ≤ _
    omega

theorem value_of_ofInt? {c : Constant} (h : Constant.ofInt? n = some c) : c.value = n := by
  unfold Constant.ofInt? at h
  split_ifs at h with hminus hsmall
  · rw [← Option.some.inj h, hminus]
    rfl
  · rw [← Option.some.inj h]
    simp only [Constant.value]
    omega

/-- **Numbers are pushed.** -/
theorem pushes_pushNumber (h : n.natAbs < Bytes.bound 8) :
    (pushNumber n).Pushes (Number.encode n) := by
  unfold pushNumber
  split_ifs with hzero
  · rw [hzero, Number.encode_zero]
    exact pushes_push (Nat.zero_le _) (Nat.zero_le _)
  · split
    · rename_i c hc
      rw [← value_of_ofInt? hc]
      exact pushes_constant c
    · exact pushes_pushOf ((Number.length_encode_le h).trans (by decide))

/-! ### Programs of pushes -/

theorem Pushes.light (h : i.Pushes item) : Light [i] (5 + item.length) 0 where
  short := by simpa using h.short
  straight m := by simp [Machine.IsStraight, h.mainAction?_eq m]
  length_le := by
    rw [codeOf_cons, codeOf_nil, List.append_nil]
    exact h.length_bytes_le
  operations_le := Nat.le_of_eq h.operations_eq

theorem light_pushes {k : Nat} (h : List.Forall₂ Pushes program items)
    (hk : ∀ item ∈ items, item.length ≤ k) : Light program (items.length * (5 + k)) 0 := by
  induction h with
  | nil => exact ⟨by simp, fun m => by simp [Machine.IsStraight], Nat.zero_le _, Nat.le_refl _⟩
  | @cons i item program items hfirst _ ih =>
    rw [List.forall_mem_cons] at hk
    have hlight := hfirst.light.append (ih hk.2)
    refine { hlight with length_le := hlight.length_le.trans ?_ }
    rw [List.length_cons, Nat.succ_mul]
    omega

end Instruction

open Instruction (Pushes codeOf)

namespace Machine

variable {m : Machine} {program : List Instruction} {items : List Bytes} {main : Stack}

/-- **Pushes one after the other** leave their items on the stack, the last one on top. -/
theorem straight_pushes (hcapacity : m.rules.capacity = some maxItems)
    (h : List.Forall₂ Pushes program items) (hroom : items.length + main.length ≤ maxItems) :
    m.straight program main = .ok () (items.reverse ++ main) := by
  induction h generalizing main with
  | nil => rfl
  | @cons i item program items hi _ ih =>
    rw [List.length_cons] at hroom
    have hpush : Stack.push m.rules.capacity item main = .ok () (item :: main) := by
      rw [hcapacity]
      exact Stack.push_eq_ok (by omega) hi.length_item_le
    have hrest : items.length + (item :: main).length ≤ maxItems := by
      rw [List.length_cons]
      omega
    rw [straight_cons_of_ok (hi.mainAction?_eq m) hpush, ih hrest, List.reverse_cons,
      List.append_assoc, List.singleton_append]

theorem obey_pushes {s : State} {i : Instruction} {item : Bytes}
    (hcapacity : m.rules.capacity = some maxItems) (hi : i.Pushes item)
    (hexecuting : s.isExecuting = true) (hroom : s.main.length < maxItems) :
    m.obey i (s.behind i) = .ok () (s.leaving [i] (item :: s.main)) := by
  have hpush : Stack.push m.rules.capacity item s.main = .ok () (item :: s.main) := by
    rw [hcapacity]
    exact Stack.push_eq_ok hroom hi.length_item_le
  have hcount : i.isCounted = true → s.opCount < maxOperations := fun hcounted =>
    absurd (hi.isCounted_eq.symm.trans hcounted) (by simp)
  rw [obey_of_mainAction? (hi.mainAction?_eq m) hi.readable hi.short hexecuting hcount, hpush,
    State.leaving_singleton]
  rfl

theorem step_of_reads_pushes {s : State} {i : Instruction} {item : Bytes}
    (hcapacity : m.rules.capacity = some maxItems) (hreads : m.Reads s i) (hi : i.Pushes item)
    (hs : s.status = .running) (hexecuting : s.isExecuting = true)
    (hroom : s.main.length + s.alt.length < maxItems) :
    m.step s = .ok () { s with pc := s.pc + i.bytes.length, main := item :: s.main } := by
  have hobey := obey_pushes hcapacity hi hexecuting (by omega)
  rw [State.leaving_singleton, State.counted, hi.operations_eq] at hobey
  exact step_of_reads_ok hs hreads hobey (by simp only [List.length_cons]; omega)

/-- **As many steps as there are pushes** leave the items of all. -/
theorem iterate_next_pushes {s : State} (hcapacity : m.rules.capacity = some maxItems)
    (h : List.Forall₂ Pushes program items) (hcode : codeOf program <+: m.code.drop s.pc)
    (hs : s.status = .running) (hexecuting : s.isExecuting = true)
    (hroom : items.length + (s.main.length + s.alt.length) ≤ maxItems) :
    m.next^[program.length] s =
      { s with pc := s.pc + (codeOf program).length, main := items.reverse ++ s.main } := by
  induction h generalizing s with
  | nil => rfl
  | @cons i item program items hi _ ih =>
    rw [Instruction.codeOf_cons] at hcode
    rw [List.length_cons] at hroom
    have hreads : m.Reads s i := ⟨hi.readable, (List.prefix_append _ _).trans hcode⟩
    have hnext : m.next s =
        { s with pc := s.pc + i.bytes.length, main := item :: s.main } := by
      rw [next, step_of_reads_pushes hcapacity hreads hi hs hexecuting (by omega)]
    have hrest : codeOf program <+: m.code.drop (s.pc + i.bytes.length) := by
      obtain ⟨tail, htail⟩ := hcode
      rw [← List.drop_drop, ← htail, List.append_assoc, List.drop_left]
      exact List.prefix_append _ _
    have hiterate := ih (s := { s with pc := s.pc + i.bytes.length, main := item :: s.main })
      hrest hs hexecuting (by simp only [List.length_cons]; omega)
    rw [List.length_cons, Function.iterate_succ_apply, hnext, hiterate]
    simp only [Instruction.codeOf_cons, List.length_append, List.reverse_cons, List.append_assoc,
      List.singleton_append, Nat.add_assoc]

end Machine

end SpendScript
