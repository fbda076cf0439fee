import SpendScript.Crypto.ScriptSignature
import SpendScript.Proofs.Machine.Capacity

/-!
# Rearranging items

The words that move, copy, drop and measure items are explained by what they make of the items on
top, written in the order in which they were pushed (`Shuffle.Rearranges`,
`Rearrangement.Rearranges`): items that are not written stay where they are.

* `Stack.shuffle_of_rearranges` : a word does as its rule says;
* `Stack.shuffle_of_lacks`, `Stack.shuffle_of_not_isOperand` : if items are missing, and if
  something else stands in the place of a depth;
* `Rearrangement.cases` : one of these is the case;
* `Machine.rearranging_calls` : so much for the step of a machine, however it was driven.
-/

namespace SpendScript

open Number (encode value IsOperand isTrue)
open Stack (maxItems maxItemSize)

/-- What a word makes of the items on top of `height` items in all, both in the order in which they
were pushed. -/
inductive Shuffle.Rearranges (height : Nat) : Shuffle → (before after : List Bytes) → Prop
  | drop2 (x1 x2 : Bytes) : Rearranges height drop2 [x1, x2] []
  | dup2 (x1 x2 : Bytes) : Rearranges height dup2 [x1, x2] [x1, x2, x1, x2]
  | dup3 (x1 x2 x3 : Bytes) : Rearranges height dup3 [x1, x2, x3] [x1, x2, x3, x1, x2, x3]
  | over2 (x1 x2 x3 x4 : Bytes) :
      Rearranges height over2 [x1, x2, x3, x4] [x1, x2, x3, x4, x1, x2]
  | rot2 (x1 x2 x3 x4 x5 x6 : Bytes) :
      Rearranges height rot2 [x1, x2, x3, x4, x5, x6] [x3, x4, x5, x6, x1, x2]
  | swap2 (x1 x2 x3 x4 : Bytes) : Rearranges height swap2 [x1, x2, x3, x4] [x3, x4, x1, x2]
  | ifDup_true (x : Bytes) (h : isTrue x = true) : Rearranges height ifDup [x] [x, x]
  | ifDup_false (x : Bytes) (h : isTrue x = false) : Rearranges height ifDup [x] [x]
  | depth : Rearranges height depth [] [encode height]
  | drop (x : Bytes) : Rearranges height drop [x] []
  | dup (x : Bytes) : Rearranges height dup [x] [x, x]
  | nip (x1 x2 : Bytes) : Rearranges height nip [x1, x2] [x2]
  | «over» (x1 x2 : Bytes) : Rearranges height «over» [x1, x2] [x1, x2, x1]
  | pick (x n : Bytes) (above : List Bytes) (hn : IsOperand n) (h : value n = above.length) :
      Rearranges height pick (x :: above ++ [n]) (x :: above ++ [x])
  | roll (x n : Bytes) (above : List Bytes) (hn : IsOperand n) (h : value n = above.length) :
      Rearranges height roll (x :: above ++ [n]) (above ++ [x])
  | rot (x1 x2 x3 : Bytes) : Rearranges height rot [x1, x2, x3] [x2, x3, x1]
  | swap (x1 x2 : Bytes) : Rearranges height swap [x1, x2] [x2, x1]
  | tuck (x1 x2 : Bytes) : Rearranges height tuck [x1, x2] [x2, x1, x2]
  | size (x : Bytes) : Rearranges height size [x] [x, encode x.length]

/-- The least number of items that a word asks for. -/
def Shuffle.arity : Shuffle → Nat
  | .depth => 0
  | .ifDup | .drop | .dup | .pick | .roll | .size => 1
  | .drop2 | .dup2 | .nip | .over | .swap | .tuck => 2
  | .dup3 | .rot => 3
  | .over2 | .swap2 => 4
  | .rot2 => 6

/-- The word finds an item at a depth that it takes from the stack. -/
def Shuffle.takesDepth : Shuffle → Bool
  | .pick | .roll => true
  | _ => false

/-- Items that the word takes or looks at are not there. -/
def Shuffle.Lacks (sh : Shuffle) (main : Stack) : Prop :=
  main.length < sh.arity ∨ sh.takesDepth = true ∧ ∃ n rest, main = n :: rest ∧ IsOperand n ∧
    (value n < 0 ∨ rest.length ≤ value n)

namespace Stack

variable {s rest below : Stack} {sh : Shuffle} {before after : List Bytes} {capacity : Capacity}
  {n x : Bytes}

/-! ### Depths -/

theorem popDepth_of_isOperand (hn : IsOperand n) {depth : Nat} (h : value n = depth)
    (hdepth : depth < rest.length) : popDepth (n :: rest) = .ok depth rest := by
  have hfound : ¬ (value n < 0 ∨ rest.length ≤ (value n).toNat) := by omega
  simp only [popDepth, Effect.bind_apply, popNumber_of_isOperand hn, size, if_neg hfound]
  rw [h]
  rfl

theorem popDepth_of_lacks (hn : IsOperand n) (h : value n < 0 ∨ rest.length ≤ value n) :
    popDepth (n :: rest) = .error .badStackOperation rest := by
  have hfound : value n < 0 ∨ rest.length ≤ (value n).toNat := by omega
  simp only [popDepth, Effect.bind_apply, popNumber_of_isOperand hn, size, if_pos hfound]
  rfl

theorem popDepth_of_not_isOperand (hn : ¬ IsOperand n) :
    popDepth (n :: rest) = .error .numberRange rest := by
  simp only [popDepth, Effect.bind_apply, popNumber_of_not_isOperand hn]

/-! ### Words -/

theorem pushNumber_none {k : Nat} (hk : k ≤ maxItems) (s : Stack) :
    pushNumber none k s = .ok () (encode k :: s) := by
  have hlt : (k : Int).natAbs < Bytes.bound 6 := by
    simp only [maxItems, Bytes.bound] at hk ⊢
    omega
  exact push_none ((Number.length_encode_le hlt).trans (by decide)) s

/-- **A word does as its rule says.** -/
theorem shuffle_of_rearranges (h : sh.Rearranges (before.reverse ++ below).length before after)
    (hitems : ∀ item ∈ before.reverse ++ below, item.length ≤ maxItemSize)
    (hlength : (before.reverse ++ below).length ≤ maxItems) :
    shuffle none sh (before.reverse ++ below) = .ok () (after.reverse ++ below) := by
  cases h with
  -- these take items or let them change places, so neither lengths nor room matter
  | drop2 | swap2 | drop | nip | swap => rfl
  | dup2 | dup3 | over2 | rot2 | dup | «over» | rot | tuck =>
    simp only [List.reverse_cons, List.reverse_nil, List.nil_append, List.cons_append,
      List.forall_mem_cons] at hitems
    simp [shuffle, copyFrom, Effect.bind_apply, require, peek, removeAt, insertAt, push_none,
      objection?, isFull, hitems, Nat.not_lt.2]
  | ifDup_true x hx | ifDup_false x hx =>
    have hshort := hitems x (by simp)
    simp [shuffle, Effect.bind_apply, peek, hx, push_none hshort]
  | depth => exact pushNumber_none hlength below
  | size x =>
    have hshort : x.length ≤ maxItems := (hitems x (by simp)).trans (by decide)
    simp [shuffle, Effect.bind_apply, peek, pushNumber_none hshort]
  | pick x n above hn hdepth =>
    have hshort := hitems x (by simp)
    have hpop : popDepth (n :: (above.reverse ++ x :: below)) = _ :=
      popDepth_of_isOperand hn hdepth (by simp)
    simp [shuffle, Effect.bind_apply, hpop, peek, push_none hshort]
  | roll x n above hn hdepth =>
    have hshort := hitems x (by simp)
    have hpop : popDepth (n :: (above.reverse ++ x :: below)) = _ :=
      popDepth_of_isOperand hn hdepth (by simp)
    -- the depth is gone, so the item lies below as many as are written above it
    have herase : (above.reverse ++ x :: below).eraseIdx above.length = above.reverse ++ below := by
      rw [List.eraseIdx_append_of_length_le (by simp)]
      simp
    simp [shuffle, Effect.bind_apply, hpop, removeAt, push_none hshort, herase]

theorem length_lt_of_lacks (h : sh.Lacks s) (hsh : sh.takesDepth = false) :
    s.length < sh.arity :=
  h.resolve_right fun hdepth => absurd hdepth.1 (by simp [hsh])

theorem require_bind_of_lt {k : Nat} {f : Unit → Action Unit} (h : s.length < k) :
    (require k >>= f) s = .error .badStackOperation s := by
  rw [Effect.bind_apply, require_of_lt h]

/-- **A word that lacks items** leaves all there are, but for a depth. -/
theorem shuffle_of_lacks (h : sh.Lacks s) (capacity : Capacity) :
    shuffle capacity sh s =
      .error .badStackOperation (if sh.takesDepth then s.tail else s) := by
  cases sh with
  | pick | roll =>
    rcases h with hempty | ⟨-, n, rest, rfl, hn, hdepth⟩
    · obtain rfl := List.length_eq_zero_iff.1 (Nat.lt_one_iff.1 hempty)
      rfl
    · simp only [shuffle, Effect.bind_apply, popDepth_of_lacks hn hdepth]
      rfl
  | drop | ifDup | size =>
    obtain rfl := List.length_eq_zero_iff.1 (Nat.lt_one_iff.1 (length_lt_of_lacks h rfl))
    rfl
  | nip =>
    have hnone : s[1]? = none :=
      List.getElem?_eq_none (Nat.le_of_lt_succ (length_lt_of_lacks h rfl))
    simp only [shuffle, Effect.bind_apply, removeAt, hnone]
    rfl
  | depth => exact absurd (length_lt_of_lacks h rfl) (Nat.not_lt_zero _)
  | drop2 | dup2 | dup3 | over2 | rot2 | swap2 | dup | «over» | rot | swap | tuck =>
    exact require_bind_of_lt (length_lt_of_lacks h rfl)

theorem shuffle_of_not_isOperand (hsh : sh.takesDepth = true) (hn : ¬ IsOperand n)
    (capacity : Capacity) : shuffle capacity sh (n :: rest) = .error .numberRange rest := by
  cases sh with
  | pick | roll => simp only [shuffle, Effect.bind_apply, popDepth_of_not_isOperand hn]
  | _ => exact absurd hsh (by simp [Shuffle.takesDepth])

end Stack

/-- **A word with as many items as it asks for** has a rule for them. -/
theorem Shuffle.exists_rearranges {height : Nat} : ∀ {sh : Shuffle} {before : List Bytes},
    sh.takesDepth = false → before.length = sh.arity → ∃ after, sh.Rearranges height before after
  | .depth, [], _, _ => ⟨_, .depth⟩
  | .ifDup, [x], _, _ => by
    cases hx : isTrue x with
    | true => exact ⟨_, .ifDup_true x hx⟩
    | false => exact ⟨_, .ifDup_false x hx⟩
  | .drop, [x], _, _ => ⟨_, .drop x⟩
  | .dup, [x], _, _ => ⟨_, .dup x⟩
  | .size, [x], _, _ => ⟨_, .size x⟩
  | .drop2, [x1, x2], _, _ => ⟨_, .drop2 x1 x2⟩
  | .dup2, [x1, x2], _, _ => ⟨_, .dup2 x1 x2⟩
  | .nip, [x1, x2], _, _ => ⟨_, .nip x1 x2⟩
  | .over, [x1, x2], _, _ => ⟨_, .over x1 x2⟩
  | .swap, [x1, x2], _, _ => ⟨_, .swap x1 x2⟩
  | .tuck, [x1, x2], _, _ => ⟨_, .tuck x1 x2⟩
  | .dup3, [x1, x2, x3], _, _ => ⟨_, .dup3 x1 x2 x3⟩
  | .rot, [x1, x2, x3], _, _ => ⟨_, .rot x1 x2 x3⟩
  | .over2, [x1, x2, x3, x4], _, _ => ⟨_, .over2 x1 x2 x3 x4⟩
  | .swap2, [x1, x2, x3, x4], _, _ => ⟨_, .swap2 x1 x2 x3 x4⟩
  | .rot2, [x1, x2, x3, x4, x5, x6], _, _ => ⟨_, .rot2 x1 x2 x3 x4 x5 x6⟩

theorem Shuffle.arity_pos {sh : Shuffle} (hsh : sh.takesDepth = true) : 0 < sh.arity := by
  cases sh with
  | pick | roll => exact Nat.one_pos
  | _ => exact absurd hsh (by simp [takesDepth])

theorem Stack.depth_cases (n : Int) (s : Stack) :
    (∃ (x : Bytes) (above : List Bytes) (below : Stack),
        s = above.reverse ++ x :: below ∧ n = above.length) ∨ n < 0 ∨ s.length ≤ n := by
  by_cases hdepth : n < 0 ∨ s.length ≤ n
  · exact .inr hdepth
  · have hlt : n.toNat < s.length := by omega
    refine .inl ⟨s[n.toNat], (s.take n.toNat).reverse, s.drop (n.toNat + 1), ?_, ?_⟩
    · rw [List.reverse_reverse, ← List.drop_eq_getElem_cons hlt, List.take_append_drop]
    · rw [List.length_reverse, List.length_take_of_le (Nat.le_of_lt hlt)]
      omega

/-- **A rule applies, items are missing, or a depth is no operand.** -/
theorem Shuffle.cases (sh : Shuffle) (s : Stack) :
    (∃ before after below, s = before.reverse ++ below ∧ sh.Rearranges s.length before after) ∨
      sh.Lacks s ∨ sh.takesDepth = true ∧ ∃ n rest, s = n :: rest ∧ ¬ IsOperand n := by
  by_cases hfew : s.length < sh.arity
  · exact .inr (.inl (.inl hfew))
  cases hsh : sh.takesDepth with
  | false =>
    -- the items that the word asks for are the topmost ones
    have hbefore : (s.take sh.arity).reverse.length = sh.arity := by
      rw [List.length_reverse, List.length_take_of_le (Nat.not_lt.1 hfew)]
    obtain ⟨after, hafter⟩ : ∃ after, sh.Rearranges s.length _ after :=
      exists_rearranges hsh hbefore
    refine .inl ⟨_, after, s.drop sh.arity, ?_, hafter⟩
    rw [List.reverse_reverse, List.take_append_drop]
  | true =>
    cases s with
    | nil => exact absurd (arity_pos hsh) hfew
    | cons n rest =>
      by_cases hn : IsOperand n
      · rcases Stack.depth_cases (value n) rest with ⟨x, above, below, rfl, hdepth⟩ | hdepth
        · have hsplit : n :: (above.reverse ++ x :: below) =
              (x :: above ++ [n]).reverse ++ below := by simp
          cases sh with
          | pick => exact .inl ⟨_, _, below, hsplit, .pick x n above hn hdepth⟩
          | roll => exact .inl ⟨_, _, below, hsplit, .roll x n above hn hdepth⟩
          | _ => exact absurd hsh (by simp [takesDepth])
        · exact .inr (.inl (.inr ⟨hsh, n, rest, rfl, hn, hdepth⟩))
      · exact .inr (.inr ⟨rfl, n, rest, rfl, hn⟩)

/-! ### Both stacks -/

/-- The words that rearrange the items of the main stack or move one to or from the other. -/
inductive Rearrangement
  | shuffle (sh : Shuffle)
  | transfer (t : Transfer)
  deriving Repr, DecidableEq

namespace Rearrangement

/-- The word as an operation. -/
def operation : Rearrangement → Operation
  | shuffle sh => .shuffle sh
  | transfer t => .transfer t

/-- What a word makes of the items on top of the main stack, of `height` items in all, and of those
on top of the alternate stack: `main` and `alt` become `main'` and `alt'`, all of them in the order
in which they were pushed. -/
inductive Rearranges (height : Nat) : Rearrangement → (main alt main' alt' : List Bytes) → Prop
  | shuffle {sh : Shuffle} {before after : List Bytes} (h : sh.Rearranges height before after) :
      Rearranges height (shuffle sh) before [] after []
  | toAlt (x : Bytes) : Rearranges height (transfer .toAlt) [x] [] [] [x]
  | fromAlt (x : Bytes) : Rearranges height (transfer .fromAlt) [] [x] [x] []

/-- Items that the word takes or looks at are not there. -/
def Lacks : Rearrangement → (main alt : Stack) → Prop
  | shuffle sh, main, _ => sh.Lacks main
  | transfer .toAlt, main, _ => main = []
  | transfer .fromAlt, _, alt => alt = []

/-- The word finds an item at a depth that it takes from the stack. -/
def takesDepth : Rearrangement → Bool
  | shuffle sh => sh.takesDepth
  | transfer _ => false

/-- Something else than an operand stands in the place of a depth. -/
def Misreads (op : Rearrangement) (main : Stack) : Prop :=
  op.takesDepth = true ∧ ∃ n rest, main = n :: rest ∧ ¬ IsOperand n

/-- **A rule applies, items are missing, or a depth is no operand.** -/
theorem cases (op : Rearrangement) (main alt : Stack) :
    (∃ x y x' y' below belowAlt, main = x.reverse ++ below ∧ alt = y.reverse ++ belowAlt ∧
        op.Rearranges main.length x y x' y') ∨ op.Lacks main alt ∨ op.Misreads main := by
  cases op with
  | shuffle sh =>
    rcases sh.cases main with ⟨before, after, below, hmain, hrule⟩ | hrest
    · exact .inl ⟨before, [], after, [], below, alt, hmain, rfl, .shuffle hrule⟩
    · exact .inr hrest
  | transfer t =>
    cases t with
    | toAlt =>
      cases main with
      | nil => exact .inr (.inl rfl)
      | cons x below => exact .inl ⟨[x], [], [], [x], below, alt, rfl, rfl, .toAlt x⟩
    | fromAlt =>
      cases alt with
      | nil => exact .inr (.inl rfl)
      | cons x below => exact .inl ⟨[], [x], [x], [], main, below, rfl, rfl, .fromAlt x⟩

theorem operations_eq (op : Rearrangement) :
    Instruction.operations [.operation op.operation] = 1 := by
  cases op with
  | shuffle sh => cases sh <;> rfl
  | transfer t => cases t <;> rfl

end Rearrangement

/-! ### The step -/

namespace Machine

variable {m : Machine} {s u : State} {op : Rearrangement} {below belowAlt : Stack}
  {x y x' y' : List Bytes}

theorem perform_shuffle (sh : Shuffle) (u : State) :
    m.perform (.shuffle sh) u =
      Effect.mainResult u (Stack.shuffle m.rules.capacity sh u.main) :=
  Effect.onMain_apply _ _

/-- **A word does as its rule says**, or there is no room for what it leaves. -/
theorem perform_of_rearranges (hcapacity : m.rules.capacity = some maxItems)
    (hitems : ∀ item ∈ u.main ++ u.alt, item.length ≤ maxItemSize) (hroom : u.items ≤ maxItems)
    (h : op.Rearranges u.main.length x y x' y') (hmain : u.main = x.reverse ++ below)
    (halt : u.alt = y.reverse ++ belowAlt) :
    m.perform op.operation u =
        .ok () { u with main := x'.reverse ++ below, alt := y'.reverse ++ belowAlt } ∨
      (∃ t, m.perform op.operation u = .error .stackSize t) ∧
        maxItems < (x'.reverse ++ below).length + (y'.reverse ++ belowAlt).length := by
  unfold State.items at hroom
  cases h with
  | @shuffle sh _ _ hrule =>
    have hshort : ∀ item ∈ u.main, item.length ≤ maxItemSize := fun item hitem =>
      hitems item (List.mem_append_left _ hitem)
    have hlength : u.main.length ≤ maxItems := Nat.le_of_add_right_le hroom
    -- rules are about stacks without a capacity, and that makes a difference for crowded ones only
    have hlimited := Stack.capped_shuffle sh u.main ⟨hshort, hlength⟩
    have hnone : Stack.shuffle none sh u.main = .ok () (x'.reverse ++ below) := by
      rw [hmain] at hrule hshort hlength ⊢
      exact Stack.shuffle_of_rearranges hrule hshort hlength
    rw [hnone] at hlimited
    rw [Rearrangement.operation, perform_shuffle, hcapacity]
    generalize Stack.shuffle (some maxItems) sh u.main = r at hlimited
    cases hlimited with
    | same =>
      rw [List.reverse_nil, List.nil_append] at halt ⊢
      rw [← halt]
      exact .inl rfl
    | full t _ hcrowded =>
      exact .inr ⟨⟨_, rfl⟩, Nat.lt_of_lt_of_le hcrowded (Nat.le_add_right _ _)⟩
  | toAlt item =>
    obtain ⟨pc, main, alt, frames, opCount, codeSeparator, status⟩ := u
    obtain rfl : main = item :: below := hmain
    obtain rfl : alt = belowAlt := halt
    have hlength : alt.length < maxItems := by
      simp only [List.length_cons] at hroom
      omega
    have hpush := Stack.push_eq_ok hlength (hitems item (by simp))
    left
    refine (toAlt_apply _).trans ?_
    simp only [hcapacity, hpush]
    rfl
  | fromAlt item =>
    obtain ⟨pc, main, alt, frames, opCount, codeSeparator, status⟩ := u
    obtain rfl : main = below := hmain
    obtain rfl : alt = item :: belowAlt := halt
    have hlength : main.length < maxItems := by
      simp only [List.length_cons] at hroom
      omega
    have hpush := Stack.push_eq_ok hlength (hitems item (by simp))
    left
    refine (fromAlt_apply _).trans ?_
    simp only [hcapacity, hpush]
    rfl

/-- **A word that lacks items** leaves all there are, but for a depth. -/
theorem perform_of_lacks (h : op.Lacks u.main u.alt) :
    m.perform op.operation u = .error .badStackOperation
      { u with main := if op.takesDepth then u.main.tail else u.main } := by
  cases op with
  | shuffle sh =>
    rw [Rearrangement.operation, perform_shuffle, Stack.shuffle_of_lacks h]
    rfl
  | transfer t =>
    obtain ⟨pc, main, alt, frames, opCount, codeSeparator, status⟩ := u
    cases t with
    | toAlt =>
      obtain rfl : main = [] := h
      rfl
    | fromAlt =>
      obtain rfl : alt = [] := h
      rfl

theorem perform_of_not_isOperand {n : Bytes} {rest : Stack} (hop : op.takesDepth = true)
    (hmain : u.main = n :: rest) (hn : ¬ IsOperand n) :
    m.perform op.operation u = .error .numberRange { u with main := rest } := by
  cases op with
  | transfer t => exact absurd hop (by simp [Rearrangement.takesDepth])
  | shuffle sh =>
    rw [Rearrangement.operation, perform_shuffle, hmain, Stack.shuffle_of_not_isOperand hop hn]
    rfl

/-- What a machine makes of a word that rearranges items. -/
structure Rearranging (m : Machine) (s : State) (op : Rearrangement) : Prop where
  /-- Where a rule applies and there is room for what it leaves, the machine does as it says. -/
  step_of_rearranges : ∀ x y x' y' below belowAlt, s.main = x.reverse ++ below →
    s.alt = y.reverse ++ belowAlt → op.Rearranges s.main.length x y x' y' →
      (x'.reverse ++ below).length + (y'.reverse ++ belowAlt).length ≤ 1000 →
        m.step s = .ok () { s with
          pc := s.pc + 1, main := x'.reverse ++ below, alt := y'.reverse ++ belowAlt,
          opCount := s.opCount + 1 }
  /-- A rule applies, unless items are missing or a depth is no operand. -/
  exists_rearranges : ¬ op.Lacks s.main s.alt → ¬ op.Misreads s.main →
    ∃ x y x' y' below belowAlt, s.main = x.reverse ++ below ∧ s.alt = y.reverse ++ belowAlt ∧
      op.Rearranges s.main.length x y x' y'
  /-- The machine finds that items are missing just if they are. -/
  badStackOperation_iff : (∃ t, m.step s = .error .badStackOperation t) ↔ op.Lacks s.main s.alt
  /-- It leaves both stacks then, but for a depth. -/
  stacks_of_badStackOperation : ∀ t, m.step s = .error .badStackOperation t →
    t.main = (if op.takesDepth then s.main.tail else s.main) ∧ t.alt = s.alt
  /-- It finds that a depth is no operand just if it is none. -/
  numberRange_iff : (∃ t, m.step s = .error .numberRange t) ↔ op.Misreads s.main

section

variable (hs : s.status = .running) (hreads : m.Reads s (.operation op.operation))
  (hexecuting : s.isExecuting = true) (hcount : s.opCount < maxOperations)

include hexecuting hcount in
theorem obey_rearrangement :
    m.obey (.operation op.operation) (s.behind (.operation op.operation)) =
      m.perform op.operation { s with pc := s.pc + 1, opCount := s.opCount + 1 } := by
  have hbehind : (s.behind (.operation op.operation)).isExecuting = true := hexecuting
  have hobey := obey_eq (m := m) (i := .operation op.operation)
    (s := s.behind (.operation op.operation)) trivial trivial fun _ => hcount
  rw [hbehind, Bool.or_true, if_pos rfl, State.counted, op.operations_eq] at hobey
  exact hobey

include hs hreads hexecuting hcount

theorem step_of_lacks (h : op.Lacks s.main s.alt) :
    m.step s = .error .badStackOperation { s with
      pc := s.pc + 1, main := if op.takesDepth then s.main.tail else s.main,
      opCount := s.opCount + 1, status := .failed .badStackOperation } :=
  step_of_reads_error hs hreads ((obey_rearrangement hexecuting hcount).trans (perform_of_lacks h))

theorem step_of_misreads (h : op.Misreads s.main) : ∃ t, m.step s = .error .numberRange t := by
  obtain ⟨hop, n, rest, hmain, hn⟩ := h
  exact ⟨_, step_of_reads_error hs hreads
    ((obey_rearrangement hexecuting hcount).trans (perform_of_not_isOperand hop hmain hn))⟩

variable (hcapacity : m.rules.capacity = some maxItems)
  (hitems : ∀ item ∈ s.main ++ s.alt, item.length ≤ maxItemSize) (hroom : s.items ≤ maxItems)

include hcapacity hitems hroom

/-- A step that does as a rule says, or finds no room for what the rule leaves. -/
theorem step_of_rearranges (h : op.Rearranges s.main.length x y x' y')
    (hmain : s.main = x.reverse ++ below) (halt : s.alt = y.reverse ++ belowAlt) :
    m.step s = .ok () { s with
        pc := s.pc + 1, main := x'.reverse ++ below, alt := y'.reverse ++ belowAlt,
        opCount := s.opCount + 1 } ∨
      (∃ t, m.step s = .error .stackSize t) ∧
        maxItems < (x'.reverse ++ below).length + (y'.reverse ++ belowAlt).length := by
  have hobey : m.obey (.operation op.operation) _ = _ := obey_rearrangement hexecuting hcount
  rcases perform_of_rearranges (u := { s with pc := s.pc + 1, opCount := s.opCount + 1 })
    hcapacity hitems hroom h hmain halt with hok | ⟨⟨t, hfull⟩, hcrowded⟩
  · by_cases hcrowded :
        maxItems < (x'.reverse ++ below).length + (y'.reverse ++ belowAlt).length
    · exact .inr ⟨⟨_, step_of_reads_crowded hs hreads (hobey.trans hok) hcrowded⟩, hcrowded⟩
    · exact .inl (step_of_reads_ok hs hreads (hobey.trans hok) (Nat.not_lt.1 hcrowded))
  · exact .inr ⟨⟨_, step_of_reads_error hs hreads (hobey.trans hfull)⟩, hcrowded⟩

theorem lacks_or_misreads_of_step {fault : Fault} {t : State} (hfault : m.step s = .error fault t)
    (hne : fault ≠ .stackSize) : op.Lacks s.main s.alt ∨ op.Misreads s.main := by
  refine (op.cases s.main s.alt).resolve_left ?_
  rintro ⟨x, y, x', y', below, belowAlt, hmain, halt, h⟩
  rcases step_of_rearranges hs hreads hexecuting hcount hcapacity hitems hroom h hmain halt with
    hok | ⟨⟨u, hfull⟩, -⟩
  · exact absurd (hok.symm.trans hfault) (by simp)
  · exact hne (EStateM.Result.error.inj (hfault.symm.trans hfull)).1

theorem lacks_of_badStackOperation {t : State} (hfault : m.step s = .error .badStackOperation t) :
    op.Lacks s.main s.alt := by
  refine (lacks_or_misreads_of_step hs hreads hexecuting hcount hcapacity hitems hroom hfault
    (by decide)).resolve_right fun h => ?_
  obtain ⟨u, hrange⟩ := step_of_misreads hs hreads hexecuting hcount h
  exact absurd (hfault.symm.trans hrange) (by simp)

theorem misreads_of_numberRange {t : State} (hfault : m.step s = .error .numberRange t) :
    op.Misreads s.main := by
  refine (lacks_or_misreads_of_step hs hreads hexecuting hcount hcapacity hitems hroom hfault
    (by decide)).resolve_left fun h => ?_
  exact absurd (hfault.symm.trans (step_of_lacks hs hreads hexecuting hcount h)) (by simp)

/-- The step from a state that keeps to the limits on its items. -/
theorem rearranging : m.Rearranging s op where
  step_of_rearranges x y x' y' below belowAlt hmain halt h hplace :=
    (step_of_rearranges hs hreads hexecuting hcount hcapacity hitems hroom h hmain
      halt).resolve_right fun hcrowded => absurd hcrowded.2 (Nat.not_lt.2 hplace)
  exists_rearranges hfew hread := (op.cases s.main s.alt).resolve_right (not_or.2 ⟨hfew, hread⟩)
  badStackOperation_iff :=
    ⟨fun ⟨_, hfault⟩ =>
      lacks_of_badStackOperation hs hreads hexecuting hcount hcapacity hitems hroom hfault,
      fun h => ⟨_, step_of_lacks hs hreads hexecuting hcount h⟩⟩
  stacks_of_badStackOperation t hfault := by
    have hlacks :=
      lacks_of_badStackOperation hs hreads hexecuting hcount hcapacity hitems hroom hfault
    have hstep := step_of_lacks hs hreads hexecuting hcount hlacks
    obtain rfl := (EStateM.Result.error.inj (hfault.symm.trans hstep)).2
    exact ⟨rfl, rfl⟩
  numberRange_iff :=
    ⟨fun ⟨_, hfault⟩ =>
      misreads_of_numberRange hs hreads hexecuting hcount hcapacity hitems hroom hfault,
      step_of_misreads hs hreads hexecuting hcount⟩

end

/-- **Rearranging items.**  However a machine was driven, if it runs and comes to one of these
words, it does as the rule for the word says, as long as there is room for the result, and leaves
what the rule does not mention.  It fails if items are missing, and only then, and leaves both
stacks; but a depth that is too great or negative is gone.  If a depth is no operand, it is found
out of range. -/
theorem rearranging_calls {primitives : Primitives} {digest : Digest} {code : Bytes}
    (hload : Machine.load primitives digest code = .ok m) (cs : List Call) (op : Rearrangement)
    (hs : (m.calls cs {}).status = .running) (hexecuting : (m.calls cs {}).isExecuting = true)
    (hbyte : m.code[(m.calls cs {}).pc]? = some op.operation.toByte)
    (hcount : (m.calls cs {}).opCount < maxOperations) : m.Rearranging (m.calls cs {}) op := by
  have hcapacity := capacity_of_load hload
  have hlimits := (invariant_limits hcapacity).calls cs (limits_start m)
  have hitems : ∀ item ∈ (m.calls cs {}).main ++ (m.calls cs {}).alt, item.length ≤ maxItemSize :=
    fun item hitem => (List.mem_append.1 hitem).elim
      (hlimits.length_item_main_le item) (hlimits.length_item_alt_le item)
  exact rearranging hs (reads_of_getElem? hbyte) hexecuting hcount hcapacity hitems
    (hlimits.length_le_of_running hs)

/-- The third item below a depth comes to the top, and then there is no item so deep as the next
depth. -/
theorem rearranging_calls_roll : ∃ m t,
    Machine.load .standard .zero [0x5a, 0x5b, 0x5c, 0x5d, 0x52, 0x7a, 0x54, 0x7a] = .ok m ∧
      m.step (m.calls (List.replicate 5 .step) {}) =
        .ok () { pc := 6, main := [[0x0b], [0x0d], [0x0c], [0x0a]], opCount := 1 } ∧
      m.step (m.calls (List.replicate 7 .step) {}) = .error .badStackOperation t ∧
      t.main = [[0x0b], [0x0d], [0x0c], [0x0a]] := by
  obtain ⟨m, hload, hfive, hseven⟩ : ∃ m,
      Machine.load .standard .zero [0x5a, 0x5b, 0x5c, 0x5d, 0x52, 0x7a, 0x54, 0x7a] = .ok m ∧
        m.calls (List.replicate 5 .step) {} =
          { pc := 5, main := [[0x02], [0x0d], [0x0c], [0x0b], [0x0a]] } ∧
        m.calls (List.replicate 7 .step) {} =
          { pc := 7, main := [[0x04], [0x0b], [0x0d], [0x0c], [0x0a]], opCount := 1 } :=
    ⟨_, load_eq (by decide), by decide +kernel, by decide +kernel⟩
  obtain ⟨hcode, -⟩ := of_load hload
  have hmoved := rearranging_calls hload (List.replicate 5 .step) (.shuffle .roll)
  have hdeep := rearranging_calls hload (List.replicate 7 .step) (.shuffle .roll)
  rw [hfive, hcode] at hmoved
  rw [hseven, hcode] at hdeep
  have hrule : Shuffle.Rearranges 5 .roll [[0x0b], [0x0c], [0x0d], [0x02]]
      [[0x0c], [0x0d], [0x0b]] :=
    .roll [0x0b] [0x02] [[0x0c], [0x0d]] (by decide) (by decide)
  have hstep := (hmoved rfl rfl rfl (by decide)).step_of_rearranges _ [] _ [] [[0x0a]] [] rfl rfl
    (.shuffle hrule) (by decide)
  have hdeep := hdeep rfl rfl rfl (by decide)
  obtain ⟨t, ht⟩ := hdeep.badStackOperation_iff.2
    (.inr ⟨rfl, [0x04], _, rfl, by decide, by decide⟩)
  refine ⟨m, t, hload, ?_, ?_, (hdeep.stacks_of_badStackOperation t ht).1⟩
  · rw [hfive, hstep]
    rfl
  · rw [hseven, ht]

end Machine

end SpendScript
