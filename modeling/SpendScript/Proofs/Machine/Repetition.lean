import SpendScript.Proofs.Machine.Pushes
import SpendScript.Proofs.Machine.Rearrangement
import SpendScript.Proofs.Stack.Rotation

/-!
# Words that move items, repeated

A word that brings the item at a depth to the top, repeated with the same depth, rotates the items
down to there, and at last they come round.  The words that move an item from one stack to the other
turn over what is moved by several of them, and moving it back undoes this.

All that these words do is to let items change places, so that a machine can go on with the next one
while there are operations left (`State.IsActive.of_perm`).

* `Machine.follow_rolls` : items that are brought to the top again and again;
* `Machine.follow_transfers` : items that are moved to the other stack one after the other;
* `Machine.repetitions_calls` : so much for a machine that was driven in any way.
-/

namespace SpendScript

open Instruction (Pushes codeOf operations)
open Number (encode)
open Stack (maxItems maxItemSize)

/-- The machine runs and executes, and its items are within bounds. -/
structure State.IsActive (s : State) : Prop where
  /-- It runs. -/
  running : s.status = .running
  /-- It is in no branch that is passed over. -/
  executing : s.isExecuting = true
  /-- No item is too long. -/
  length_item_le : ∀ item ∈ s.main ++ s.alt, item.length ≤ maxItemSize
  /-- There are not too many of them. -/
  items_le : s.items ≤ maxItems

/-- **Items may change places**, also between the stacks. -/
theorem State.IsActive.of_perm {s t : State} (h : s.IsActive)
    (hperm : (t.main ++ t.alt).Perm (s.main ++ s.alt)) (hstatus : t.status = s.status)
    (hframes : t.frames = s.frames) : t.IsActive where
  running := hstatus.trans h.running
  executing := by
    rw [isExecuting, hframes]
    exact h.executing
  length_item_le item hitem := h.length_item_le item (hperm.mem_iff.1 hitem)
  items_le := by
    have hlength := hperm.length_eq
    have hitems := h.items_le
    simp only [List.length_append] at hlength
    unfold items at hitems ⊢
    omega

namespace Machine

variable {m : Machine} {s : State}

theorem pass_of_rearranges (op : Rearrangement) {x y x' y' : List Bytes} {below belowAlt : Stack}
    (hcapacity : m.rules.capacity = some maxItems) (hactive : s.IsActive)
    (hcount : s.opCount < maxOperations) (h : op.Rearranges s.main.length x y x' y')
    (hmain : s.main = x.reverse ++ below) (halt : s.alt = y.reverse ++ belowAlt)
    (hroom : (x'.reverse ++ below).length + (y'.reverse ++ belowAlt).length ≤ maxItems) :
    m.pass s (.operation op.operation) = { s with
      pc := s.pc + 1, main := x'.reverse ++ below, alt := y'.reverse ++ belowAlt,
      opCount := s.opCount + 1 } := by
  rcases perform_of_rearranges (m := m) (u := { s with pc := s.pc + 1, opCount := s.opCount + 1 })
    hcapacity hactive.length_item_le hactive.items_le h hmain halt with hok | ⟨-, hcrowded⟩
  · rw [pass, if_pos (isRunning_iff.2 hactive.running),
      obey_rearrangement hactive.executing hcount, hok]
    exact settle_ok hroom
  · exact absurd hroom (Nat.not_le.2 hcrowded)

end Machine

/-! ### Items that are brought to the top -/

/-- A program that brings the item at a depth to the top with every push of a depth. -/
def Instruction.rolls (pushes : List Instruction) : List Instruction :=
  pushes.flatMap fun push => [push, .operation (.shuffle .roll)]

namespace Machine

variable {m : Machine} {s : State} {k : Nat} {push : Instruction} {pushes : List Instruction}

open Instruction (rolls)

theorem pass_push {item : Bytes} (hcapacity : m.rules.capacity = some maxItems)
    (hpush : push.Pushes item) (hactive : s.IsActive) (hroom : s.items < maxItems) :
    m.pass s push = s.leaving [push] (item :: s.main) := by
  unfold State.items at hroom
  rw [pass, if_pos (isRunning_iff.2 hactive.running),
    obey_pushes hcapacity hpush hactive.executing (by omega)]
  refine settle_ok ?_
  show (item :: s.main).length + s.alt.length ≤ maxItems
  rw [List.length_cons]
  omega

theorem isActive_leaving_push {item : Bytes} (hpush : push.Pushes item) (hactive : s.IsActive)
    (hroom : s.items < maxItems) : (s.leaving [push] (item :: s.main)).IsActive where
  running := hactive.running
  executing := hactive.executing
  length_item_le := List.forall_mem_cons.2 ⟨hpush.length_item_le, hactive.length_item_le⟩
  items_le := by
    unfold State.items at hroom
    show (item :: s.main).length + s.alt.length ≤ maxItems
    rw [List.length_cons]
    omega

theorem exists_rearranges_roll {main : Stack} (hk : k < main.length)
    (hlength : main.length ≤ maxItems) (height : Nat) :
    ∃ (before after : List Bytes) (below : Stack), Shuffle.Rearranges height .roll before after ∧
      encode k :: main = before.reverse ++ below ∧
      main.rotateTop (k + 1) 1 = after.reverse ++ below := by
  obtain ⟨items, below, hitems, rfl⟩ := Stack.exists_top hk
  obtain ⟨x, above, rfl⟩ : ∃ x above, items = x :: above :=
    List.exists_cons_of_length_pos (by omega)
  obtain rfl : above.length = k := Nat.succ.inj hitems
  have hdepth : Number.IsOperand (encode above.length) := by
    rw [Number.isOperand_encode_iff, Int.natAbs_natCast]
    simp only [maxItems] at hlength
    omega
  refine ⟨_, _, below, .roll x _ above hdepth (Number.value_encode _), by simp, ?_⟩
  have htop := Stack.rotateTop_append (x :: above) below 1
  rwa [List.rotate_cons_succ, List.rotate_zero] at htop

/-- **Bringing one item to the top** rotates the items down to its place by one. -/
theorem follow_roll (hcapacity : m.rules.capacity = some maxItems) (hactive : s.IsActive)
    (hk : k < s.main.length) (hroom : s.items < maxItems) (hcount : s.opCount < maxOperations)
    (hpush : push.Pushes (encode k)) :
    m.follow [push, .operation (.shuffle .roll)] s =
      s.leaving [push, .operation (.shuffle .roll)] (s.main.rotateTop (k + 1) 1) := by
  have hitems : s.main.length + s.alt.length < maxItems := hroom
  obtain ⟨before, after, below, hrule, hbefore, hafter⟩ :=
    exists_rearranges_roll hk (by omega) (encode k :: s.main).length
  have hlength : (s.main.rotateTop (k + 1) 1).length = s.main.length :=
    (Stack.rotateTop_perm _ _ _).length_eq
  have hcount' : (s.leaving [push] (encode k :: s.main)).opCount < maxOperations := by
    rwa [State.leaving, hpush.operations_eq]
  have hrolled := pass_of_rearranges (.shuffle .roll) hcapacity
    (isActive_leaving_push hpush hactive hroom) hcount' (.shuffle hrule) hbefore
    (List.nil_append s.alt).symm (by
      rw [← hafter, hlength, List.reverse_nil, List.nil_append]
      exact Nat.le_of_lt hitems)
  rw [← hafter] at hrolled
  have hboth := s.leaving_cons push [.operation (.shuffle .roll)] (encode k :: s.main)
    (s.main.rotateTop (k + 1) 1)
  rw [follow_cons, pass_push hcapacity hpush hactive hroom, follow_cons, follow_nil, ← hboth]
  exact hrolled

/-- **Bringing items to the top again and again** rotates them again and again. -/
theorem follow_rolls (hcapacity : m.rules.capacity = some maxItems) (hactive : s.IsActive)
    (hk : k < s.main.length) (hroom : s.items < maxItems)
    (hcount : s.opCount + pushes.length ≤ maxOperations)
    (hpushes : ∀ push ∈ pushes, push.Pushes (encode k)) :
    m.follow (rolls pushes) s =
      s.leaving (rolls pushes) (s.main.rotateTop (k + 1) pushes.length) := by
  induction pushes generalizing s with
  | nil =>
    rw [List.length_nil, Stack.rotateTop_zero]
    rfl
  | cons push pushes ih =>
    rw [List.forall_mem_cons] at hpushes
    rw [List.length_cons] at hcount
    have hperm := Stack.rotateTop_perm (k + 1) 1 s.main
    have hfirst := follow_roll hcapacity hactive hk hroom (by omega) hpushes.1
    have hone : operations [push, .operation (.shuffle .roll)] = 1 := by
      rw [@Instruction.operations_cons push, hpushes.1.operations_eq]
      rfl
    have hrest := ih
      (s := s.leaving [push, .operation (.shuffle .roll)] (s.main.rotateTop (k + 1) 1))
      (hactive.of_perm (hperm.append_right _) rfl rfl)
      (by rwa [State.leaving, hperm.length_eq])
      (by rwa [State.items, State.leaving, hperm.length_eq])
      (by rw [State.leaving, hone]; dsimp only; omega) hpushes.2
    have hcons : rolls (push :: pushes) = [push, .operation (.shuffle .roll)] ++ rolls pushes := rfl
    rw [hcons, follow_append, hfirst, hrest, State.leaving_append, List.length_cons,
      Nat.add_comm pushes.length, ← Stack.rotateTop_rotateTop hk]
    rfl

end Machine

/-! ### Items that are moved to the other stack -/

/-- The state with these items on the stack that a word takes one from, and on the other one. -/
def State.across (s : State) : Transfer → (source target : Stack) → State
  | .toAlt, source, target => { s with main := source, alt := target }
  | .fromAlt, source, target => { s with main := target, alt := source }

/-- The state behind so many words that count, with its items where they were. -/
def State.afterWords (s : State) (words : Nat) : State :=
  { s with pc := s.pc + words, opCount := s.opCount + words }

theorem State.afterWords_afterWords (s : State) (a b : Nat) :
    (s.afterWords a).afterWords b = s.afterWords (a + b) := by
  simp only [afterWords, Nat.add_assoc]

namespace Machine

variable {m : Machine} {s : State} {t : Transfer} {item : Bytes} {source target : Stack}

theorem pass_transfer (hcapacity : m.rules.capacity = some maxItems)
    (hactive : (s.across t (item :: source) target).IsActive) (hcount : s.opCount < maxOperations) :
    m.pass (s.across t (item :: source) target) (.operation (.transfer t)) =
      (s.afterWords 1).across t source (item :: target) := by
  have hroom := hactive.items_le
  cases t with
  | toAlt =>
    have hplace : source.length + (item :: target).length ≤ maxItems := by
      simp only [State.items, State.across, List.length_cons] at hroom ⊢
      omega
    exact pass_of_rearranges (.transfer .toAlt) hcapacity hactive hcount (.toAlt item)
      (rfl : item :: source = [item].reverse ++ source) rfl hplace
  | fromAlt =>
    have hplace : (item :: target).length + source.length ≤ maxItems := by
      simp only [State.items, State.across, List.length_cons] at hroom ⊢
      omega
    exact pass_of_rearranges (.transfer .fromAlt) hcapacity hactive hcount (.fromAlt item) rfl
      (rfl : item :: source = [item].reverse ++ source) hplace

theorem isActive_across (hactive : (s.across t (item :: source) target).IsActive) :
    ((s.afterWords 1).across t source (item :: target)).IsActive := by
  cases t with
  | toAlt => exact hactive.of_perm List.perm_middle rfl rfl
  | fromAlt => exact hactive.of_perm List.perm_middle.symm rfl rfl

/-- **Moving several items to the other stack** turns them over. -/
theorem follow_transfers (t : Transfer) (items : List Bytes) (source target : Stack)
    (hcapacity : m.rules.capacity = some maxItems)
    (hactive : (s.across t (items ++ source) target).IsActive)
    (hcount : s.opCount + items.length ≤ maxOperations) :
    m.follow (List.replicate items.length (.operation (.transfer t)))
        (s.across t (items ++ source) target) =
      (s.afterWords items.length).across t source (items.reverse ++ target) := by
  induction items generalizing s target with
  | nil => cases t <;> rfl
  | cons item items ih =>
    rw [List.length_cons] at hcount
    rw [List.cons_append] at hactive ⊢
    have hfirst := pass_transfer hcapacity hactive (by omega)
    have hrest := ih (s := s.afterWords 1) (item :: target) (isActive_across hactive)
      (by simp only [State.afterWords]; omega)
    rw [List.length_cons, List.replicate_succ, follow_cons, hfirst, hrest,
      State.afterWords_afterWords, Nat.add_comm 1, List.reverse_cons, List.append_assoc,
      List.singleton_append]

theorem isActive_afterWords_across {n : Nat} (hactive : s.IsActive) : State.IsActive
    ((s.afterWords n).across .toAlt (s.main.drop n) ((s.main.take n).reverse ++ s.alt)) := by
  have hmain : (s.main.drop n ++ (s.main.take n).reverse).Perm s.main := by
    have hperm := (List.reverse_perm (s.main.take n)).append_left (s.main.drop n)
    have hcomm : (s.main.drop n ++ s.main.take n).Perm (s.main.take n ++ s.main.drop n) :=
      List.perm_append_comm
    rw [List.take_append_drop] at hcomm
    exact hperm.trans hcomm
  refine hactive.of_perm ?_ rfl rfl
  have hboth := hmain.append_right s.alt
  rwa [List.append_assoc] at hboth

section

variable {n : Nat} (hcapacity : m.rules.capacity = some maxItems) (hactive : s.IsActive)
  (hn : n ≤ s.main.length)

include hcapacity hactive hn

theorem follow_toAlt (hcount : s.opCount + n ≤ maxOperations) :
    m.follow (List.replicate n (.operation (.transfer .toAlt))) s =
      (s.afterWords n).across .toAlt (s.main.drop n) ((s.main.take n).reverse ++ s.alt) := by
  have hlength : (s.main.take n).length = n := List.length_take_of_le hn
  have hs : s.across .toAlt (s.main.take n ++ s.main.drop n) s.alt = s := by
    rw [List.take_append_drop]
    rfl
  have hmoved := follow_transfers .toAlt (s.main.take n) (s.main.drop n) s.alt hcapacity
    (hs.symm ▸ hactive) (by omega)
  rwa [hs, hlength] at hmoved

/-- **Moving several items to the alternate stack and back** leaves them where they were. -/
theorem follow_toAlt_fromAlt (hcount : s.opCount + 2 * n ≤ maxOperations) :
    m.follow (List.replicate n (.operation (.transfer .toAlt)) ++
      List.replicate n (.operation (.transfer .fromAlt))) s = s.afterWords (2 * n) := by
  have hlength : (s.main.take n).reverse.length = n := by
    rw [List.length_reverse, List.length_take_of_le hn]
  -- what one word takes from is what the other one moves to
  have hback := follow_transfers .fromAlt (s.main.take n).reverse s.alt (s.main.drop n) hcapacity
    (isActive_afterWords_across hactive) (by simp only [State.afterWords, hlength]; omega)
  rw [hlength, List.reverse_reverse, List.take_append_drop, State.afterWords_afterWords,
    ← Nat.two_mul] at hback
  rw [follow_append, follow_toAlt hcapacity hactive hn (by omega)]
  exact hback

end

end Machine

/-! ### States that a machine comes to -/

/-- What is left of a state when a program brought the item at depth `k` to the top so many
times. -/
structure State.Rolled (program : List Instruction) (k times : Nat) (s t : State) : Prop where
  /-- The items down to there are rotated, and besides only the counters have changed. -/
  eq_leaving : t = s.leaving program (s.main.rotateTop (k + 1) times)
  /-- Each of them has gone so many places deeper, or on from the top. -/
  getElem?_eq : ∀ depth ≤ k, t.main[(depth + times) % (k + 1)]? = s.main[depth]?
  /-- The items below are where they were. -/
  drop_eq : t.main.drop (k + 1) = s.main.drop (k + 1)
  /-- After as many times as there are items that move, all are where they were. -/
  main_eq_of_dvd : k + 1 ∣ times → t.main = s.main

theorem State.rolled_leaving {s : State} {k : Nat} (hk : k < s.main.length)
    (program : List Instruction) (times : Nat) :
    Rolled program k times s (s.leaving program (s.main.rotateTop (k + 1) times)) where
  eq_leaving := rfl
  getElem?_eq _ hdepth := Stack.getElem?_rotateTop hk (Nat.lt_succ_of_le hdepth) times
  drop_eq := Stack.drop_rotateTop hk times
  main_eq_of_dvd := Stack.rotateTop_of_dvd hk

namespace Machine

variable {m m' : Machine} {s : State} {pushes : List Instruction}

open Instruction (rolls pushNumber)

theorem Limits.isActive (h : m.Limits s) (hrunning : s.status = .running)
    (hexecuting : s.isExecuting = true) : s.IsActive where
  running := hrunning
  executing := hexecuting
  length_item_le item hitem := (List.mem_append.1 hitem).elim
    (h.length_item_main_le item) (h.length_item_alt_le item)
  items_le := h.length_le_of_running hrunning

theorem length_rolls (pushes : List Instruction) : (rolls pushes).length = 2 * pushes.length := by
  simp [rolls, List.length_flatMap, Nat.mul_comm]

theorem readable_rolls {item : Bytes} (hpushes : ∀ push ∈ pushes, push.Pushes item) :
    ∀ i ∈ rolls pushes, i.Readable := by
  intro i hi
  obtain ⟨push, hpush, hi⟩ := List.mem_flatMap.1 hi
  rcases List.mem_pair.1 hi with rfl | rfl
  · exact (hpushes _ hpush).readable
  · trivial

theorem readable_replicate (n : Nat) (op : Operation) :
    ∀ i ∈ List.replicate n (Instruction.operation op), i.Readable := by
  intro i hi
  rw [List.eq_of_mem_replicate hi]
  trivial

/-- **Items that change places come back.**  However a machine was driven, if it runs and executes,
then to bring the item at depth `k` to the top again and again, by pushes of this number in any
form, rotates the items down to there by a place each time, and leaves those below; after `k + 1`
times all items are where they were.  To move items to the alternate stack one after the other
leaves them there in the opposite order, and to move as many back leaves both stacks as they were.
There must be operations left, and room for the depths. -/
theorem repetitions_calls {primitives : Primitives} {digest : Digest} {code code' : Bytes}
    (hload' : Machine.load primitives digest code' = .ok m') (cs : List Call)
    (hs : s = m'.calls cs {}) (hrunning : s.status = .running) (hexecuting : s.isExecuting = true)
    (hload : Machine.load primitives digest code = .ok m) :
    (∀ k < s.main.length, s.main.length + s.alt.length < 1000 →
      (pushNumber k).Pushes (encode k) ∧
      ∀ pushes : List Instruction, (∀ push ∈ pushes, push.Pushes (encode k)) →
        s.opCount + pushes.length ≤ 201 → codeOf (rolls pushes) <+: code.drop s.pc →
          s.Rolled (rolls pushes) k pushes.length (m.next^[2 * pushes.length] s)) ∧
    (∀ n ≤ s.main.length, s.opCount + n ≤ 201 →
      codeOf (List.replicate n (.operation (.transfer .toAlt))) <+: code.drop s.pc →
        m.next^[n] s = { s with
          pc := s.pc + n, main := s.main.drop n, alt := (s.main.take n).reverse ++ s.alt,
          opCount := s.opCount + n }) ∧
    ∀ n ≤ s.main.length, s.opCount + 2 * n ≤ 201 →
      codeOf (List.replicate n (.operation (.transfer .toAlt)) ++
        List.replicate n (.operation (.transfer .fromAlt))) <+: code.drop s.pc →
        m.next^[2 * n] s = { s with pc := s.pc + 2 * n, opCount := s.opCount + 2 * n } := by
  obtain ⟨rfl, -⟩ := of_load hload
  have hcapacity := capacity_of_load hload
  have hlimits := limits_calls hload' cs
  rw [← hs] at hlimits
  have hactive := hlimits.isActive hrunning hexecuting
  refine ⟨fun k hk hroom => ⟨?_, fun pushes hpushes hcount hcode => ?_⟩,
    fun n hn hcount hcode => ?_, fun n hn hcount hcode => ?_⟩
  · refine Instruction.pushes_pushNumber ?_
    rw [Int.natAbs_natCast]
    simp only [Bytes.bound]
    omega
  · rw [← length_rolls, iterate_next_eq_follow (readable_rolls hpushes) hcode,
      follow_rolls hcapacity hactive hk hroom hcount hpushes]
    exact State.rolled_leaving hk _ _
  · have hiterate := iterate_next_eq_follow (m := m) (readable_replicate n _) hcode
    rw [List.length_replicate, follow_toAlt hcapacity hactive hn hcount] at hiterate
    exact hiterate
  · have hiterate := iterate_next_eq_follow (m := m)
      (List.forall_mem_append.2 ⟨readable_replicate n _, readable_replicate n _⟩) hcode
    rw [List.length_append, List.length_replicate, List.length_replicate, ← Nat.two_mul,
      follow_toAlt_fromAlt hcapacity hactive hn hcount] at hiterate
    exact hiterate

/-- Three items are brought round by two forms of the number two, with a fourth one below; then two
of them are moved to the alternate stack, and back. -/
theorem repetitions_calls_three : ∃ m, Machine.load .standard .zero
      [0x5a, 0x5b, 0x5c, 0x5d, 0x52, 0x7a, 0x4c, 0x01, 0x02, 0x7a, 0x52, 0x7a, 0x6b, 0x6b, 0x6c,
        0x6c] = .ok m ∧
    m.next^[4] { pc := 4, main := [[0x0d], [0x0c], [0x0b], [0x0a]] } =
      { pc := 10, main := [[0x0c], [0x0b], [0x0d], [0x0a]], opCount := 2 } ∧
    (m.next^[6] { pc := 4, main := [[0x0d], [0x0c], [0x0b], [0x0a]] }).main =
      [[0x0d], [0x0c], [0x0b], [0x0a]] ∧
    m.next^[2] { pc := 12, main := [[0x0d], [0x0c], [0x0b], [0x0a]], opCount := 3 } =
      { pc := 14, main := [[0x0b], [0x0a]], alt := [[0x0c], [0x0d]], opCount := 5 } ∧
    m.next^[4] { pc := 12, main := [[0x0d], [0x0c], [0x0b], [0x0a]], opCount := 3 } =
      { pc := 16, main := [[0x0d], [0x0c], [0x0b], [0x0a]], opCount := 7 } := by
  have hload : Machine.load .standard .zero
      [0x5a, 0x5b, 0x5c, 0x5d, 0x52, 0x7a, 0x4c, 0x01, 0x02, 0x7a, 0x52, 0x7a, 0x6b, 0x6b, 0x6c,
        0x6c] = .ok _ := load_eq (by decide)
  obtain ⟨hrolls, -, -⟩ := repetitions_calls
    (s := { pc := 4, main := [[0x0d], [0x0c], [0x0b], [0x0a]] }) hload (List.replicate 4 .step)
    (by decide +kernel) rfl rfl hload
  obtain ⟨-, hmoved, hback⟩ := repetitions_calls
    (s := { pc := 12, main := [[0x0d], [0x0c], [0x0b], [0x0a]], opCount := 3 }) hload
    (List.replicate 10 .step) (by decide +kernel) rfl rfl hload
  obtain ⟨hnumber, hrolled⟩ := hrolls 2 (by decide) (by decide)
  have hsized : (Instruction.push (.sized .one) [0x02]).Pushes (encode 2) := by
    have hencode : encode 2 = [0x02] := by decide +kernel
    rw [hencode]
    exact Instruction.pushes_push (Instruction.readable_push_iff.2 (by decide)) (by decide)
  have htwo := hrolled [pushNumber 2, .push (.sized .one) [0x02]] (by
    simp only [List.forall_mem_cons]
    exact ⟨hnumber, hsized, List.forall_mem_nil _⟩) (by decide) (by decide)
  have hthree := hrolled [pushNumber 2, .push (.sized .one) [0x02], pushNumber 2] (by
    simp only [List.forall_mem_cons]
    exact ⟨hnumber, hsized, hnumber, List.forall_mem_nil _⟩) (by decide) (by decide)
  refine ⟨_, hload, htwo.eq_leaving.trans ?_, hthree.main_eq_of_dvd (by decide),
    hmoved 2 (by decide) (by decide) (by decide), hback 2 (by decide) (by decide) (by decide)⟩
  decide +kernel

end Machine

end SpendScript
