import SpendScript.Proofs.Machine.Obey

/-!
# What single instructions change

Obeying an instruction can change the stacks, the open conditionals, the number of operations and
the last code separator, each within narrow bounds and whether it fails or not (`Machine.Change`).
It succeeds only where the instruction *fits* (`Instruction.Fits`), which can be seen without
looking at the stacks, and where it fits no fault of it is static.

* `Machine.obeyed` : both facts, for every instruction.
-/

namespace SpendScript

open Effect (onMain onAlt)
open Instruction (operations)
open Stack (Bounded Tame TameResult)

/-- Both stacks are bounded, and the operations met are not too many. -/
structure State.Sound (s : State) : Prop where
  /-- The main stack is bounded. -/
  main : Bounded s.main
  /-- The alternate stack is bounded. -/
  alt : Bounded s.alt
  /-- There were not too many operations. -/
  opCount_le : s.opCount ≤ maxOperations

/-- Nothing but the stacks speaks against the instruction in this state. -/
def Instruction.Fits (i : Instruction) (s : State) : Prop :=
  i.Permitted ∧ s.opCount + operations [i] ≤ maxOperations ∧ (i.nest s.frames.length).isSome

namespace Machine

/-- What obeying an instruction makes of a state, whether it fails or not. -/
structure Change (i : Instruction) (s t : State) : Prop where
  /-- The counter has moved before. -/
  pc_eq : t.pc = s.pc
  /-- Only a step ends a run. -/
  status_eq : t.status = s.status
  /-- The instruction is counted. -/
  opCount_eq : t.opCount = s.opCount + operations [i]
  /-- The main stack stays bounded. -/
  main : Bounded t.main
  /-- The alternate stack stays bounded. -/
  alt : Bounded t.alt
  /-- There are three items more at most. -/
  length_le : t.main.length + t.alt.length ≤ s.main.length + s.alt.length + 3
  /-- Only an operation adds to the alternate stack. -/
  length_alt_le : t.alt.length ≤ s.alt.length + operations [i]
  /-- Only an operation opens a conditional. -/
  length_frames_le : t.frames.length ≤ s.frames.length + operations [i]
  /-- Only a code separator notes where it stands. -/
  codeSeparator_eq : t.codeSeparator = s.codeSeparator ∨
    i = .operation .codeSeparator ∧ t.codeSeparator = s.pc

/-- The outcome of obeying an instruction: it changed no more than it may, it succeeded only if it
fits, and did not fail with a static fault if it does. -/
def Obeyed (p : Primitives) (i : Instruction) (s : State) : EStateM.Result Fault State Unit → Prop
  | .ok _ t => Change i s t ∧ i.Fits s ∧ i.nest s.frames.length = some t.frames.length
  | .error fault t => Change i s t ∧ (fault.isStatic = true → p.Short → ¬ i.Fits s)

variable {m : Machine} {i : Instruction} {s : State}

theorem change_counted (i : Instruction) (hs : s.Sound) : Change i s (s.counted i) where
  pc_eq := rfl
  status_eq := rfl
  opCount_eq := rfl
  main := hs.main
  alt := hs.alt
  length_le := Nat.le_add_right _ _
  length_alt_le := Nat.le_add_right _ _
  length_frames_le := Nat.le_add_right _ _
  codeSeparator_eq := .inl rfl

/-- Where an instruction fits, it leaves no more operations than there may be. -/
theorem Change.sound {t : State} (h : Change i s t) (hfits : i.Fits s) : t.Sound := by
  refine ⟨h.main, h.alt, ?_⟩
  rw [h.opCount_eq]
  exact hfits.2.1

/-! ### Instructions that look at the main stack alone -/

section Main

variable (hcapacity : m.rules.capacity = some Stack.maxItems) {F : Fault → Prop}
  (hF : ∀ fault, fault.isStatic = false → F fault)

include hF

theorem tame_checkSignature : Tame F 0 m.checkSignature fun _ => True :=
  (Stack.tame_require hF 2).then fun _ _ => (Stack.tame_pop hF).then fun _ _ =>
    (Stack.tame_pop hF).then fun _ _ => .done

theorem tame_checkSignatures : Tame F 0 m.checkSignatures fun _ => True :=
  (Stack.tame_popCount hF _ rfl).then fun n _ => (Stack.tame_popMany hF n).then fun _ _ =>
    (Stack.tame_popCount hF _ rfl).then fun k _ => (Stack.tame_popMany hF k).then fun _ _ =>
      (Stack.tame_pop hF).then fun _ _ => .done

include hcapacity

theorem tame_ask (c : Check) : Tame F 1 (m.ask c) fun _ => True := by
  cases c with
  | equal => simpa only [ask, hcapacity] using Stack.tame_equal hF
  | numEqual => simpa only [ask, hcapacity] using Stack.tame_binary hF .numEqual
  | checkSig =>
    simp only [ask, hcapacity]
    exact (tame_checkSignature hF).then fun answer _ => Stack.tame_pushTruth hF answer
  | checkMultisig =>
    simp only [ask, hcapacity]
    exact (tame_checkSignatures hF).then fun answer _ => Stack.tame_pushTruth hF answer

end Main

/-- **An instruction that looks at the main stack alone adds three items at most.**  If it is
permitted, it has no static fault. -/
theorem tame_mainAction? (hcapacity : m.rules.capacity = some Stack.maxItems)
    {action : Stack.Action Unit} (h : m.mainAction? i = some action) :
    Tame (fun fault => fault.isStatic = true → m.primitives.Short → ¬ i.Permitted) 3 action
      fun _ => i.Short → i.Permitted := by
  have hF : ∀ fault : Fault, fault.isStatic = false →
      fault.isStatic = true → m.primitives.Short → ¬ i.Permitted :=
    fun _ hdynamic hstatic => Fault.elim_static hdynamic hstatic
  have hweaken : i.Permitted → ∀ {n : Nat} {action : Stack.Action Unit}, n ≤ 3 →
      Tame (fun fault => fault.isStatic = true → m.primitives.Short → ¬ i.Permitted) n action
        (fun _ => True) →
      Tame (fun fault => fault.isStatic = true → m.primitives.Short → ¬ i.Permitted) 3 action
        fun _ => i.Short → i.Permitted :=
    fun hi _ _ hn htame => htame.mono hn fun _ _ _ => hi
  cases i with
  | push form data =>
    obtain rfl := Option.some.inj h
    rw [hcapacity]
    refine (Stack.tame_push hF ?_).mono (by omega) fun _ _ hi => hi
    by_cases hshort : data.length ≤ Stack.maxItemSize
    · exact .inl hshort
    · exact .inr fun _ _ => hshort
  | unassigned byte =>
    obtain rfl := Option.some.inj h
    exact hweaken trivial (Nat.zero_le _) (.throw (hF _ rfl))
  | operation op =>
    cases op with
    | branch b => exact absurd h (by simp [mainAction?])
    | transfer t => exact absurd h (by simp [mainAction?])
    | codeSeparator => exact absurd h (by simp [mainAction?])
    | forbidden f =>
      obtain rfl := Option.some.inj h
      exact (Tame.throw (R := fun _ => False) (hF _ rfl)).mono (Nat.zero_le _)
        fun _ hfalse => hfalse.elim
    | disabled d =>
      obtain rfl := Option.some.inj h
      exact (Tame.throw (R := fun _ => False) fun _ _ hi => hi).mono (Nat.zero_le _)
        fun _ hfalse => hfalse.elim
    | constant c =>
      obtain rfl := Option.some.inj h
      have hvalue := c.natAbs_value_le
      rw [hcapacity]
      refine hweaken trivial (by omega) (Stack.tame_pushNumber hF ?_)
      simp only [Bytes.bound]
      omega
    | nop n =>
      obtain rfl := Option.some.inj h
      exact hweaken trivial (Nat.le_refl _) .done
    | verify =>
      obtain rfl := Option.some.inj h
      exact hweaken trivial (Nat.zero_le _) (Stack.tame_verifyTop hF rfl)
    | giveUp =>
      obtain rfl := Option.some.inj h
      exact hweaken trivial (Nat.zero_le _) (.throw (hF _ rfl))
    | shuffle sh =>
      obtain rfl := Option.some.inj h
      rw [hcapacity]
      exact hweaken trivial (Nat.le_refl _) (Stack.tame_shuffle hF sh)
    | equal =>
      obtain rfl := Option.some.inj h
      exact hweaken trivial (by omega) (tame_ask hcapacity hF .equal)
    | unary u =>
      obtain rfl := Option.some.inj h
      rw [hcapacity]
      exact hweaken trivial (by omega) (Stack.tame_unary hF u)
    | binary b =>
      obtain rfl := Option.some.inj h
      rw [hcapacity]
      exact hweaken trivial (by omega) (Stack.tame_binary hF b)
    | within =>
      obtain rfl := Option.some.inj h
      rw [hcapacity]
      exact hweaken trivial (by omega) (Stack.tame_within hF)
    | hash word =>
      obtain rfl := Option.some.inj h
      rw [hcapacity]
      refine hweaken trivial (by omega) (Stack.tame_mapTop hF fun item => ?_)
      by_cases hshort : m.primitives.Short
      · exact .inl (hshort word item)
      · exact .inr fun _ hp => absurd hp hshort
    | checkSig =>
      obtain rfl := Option.some.inj h
      exact hweaken trivial (by omega) (tame_ask hcapacity hF .checkSig)
    | checkMultisig =>
      obtain rfl := Option.some.inj h
      exact hweaken trivial (by omega) (tame_ask hcapacity hF .checkMultisig)
    | verified c =>
      obtain rfl := Option.some.inj h
      exact hweaken trivial (by omega)
        ((tame_ask hcapacity hF c).bind fun _ _ => Stack.tame_verifyTop hF rfl)
    | lockTime l =>
      obtain rfl := Option.some.inj h
      exact hweaken trivial (Nat.zero_le _) (Stack.tame_lockTime hF)
    | reserved r =>
      obtain rfl := Option.some.inj h
      exact hweaken trivial (Nat.zero_le _) (.throw (hF _ rfl))

theorem obeyed_mainAction? (hcapacity : m.rules.capacity = some Stack.maxItems) (hs : s.Sound)
    (hshort : i.Short) (hcount : s.opCount + operations [i] ≤ maxOperations)
    {action : Stack.Action Unit} (haction : m.mainAction? i = some action) :
    Obeyed m.primitives i s (m.carryOut i (s.counted i)) := by
  have htame := tame_mainAction? hcapacity haction s.main hs.main
  have hnest := nest_of_mainAction? haction s.frames.length
  rw [carryOut_eq_onMain haction, Effect.onMain_apply]
  change Obeyed _ _ _ (Effect.mainResult (s.counted i) (action s.main))
  cases hresult : action s.main with
  | ok _ main =>
    rw [hresult] at htame
    obtain ⟨hmain, hlen, hpermitted⟩ := htame
    refine ⟨{ change_counted i hs with main := hmain, length_le := ?_ },
      ⟨hpermitted hshort, hcount, by rw [hnest]; rfl⟩, hnest⟩
    change main.length + s.alt.length ≤ _
    omega
  | error fault main =>
    rw [hresult] at htame
    obtain ⟨hmain, hlen, hfault⟩ := htame
    refine ⟨{ change_counted i hs with main := hmain, length_le := ?_ },
      fun hstatic hp hfits => hfault hstatic hp hfits.1⟩
    change main.length + s.alt.length ≤ _
    omega

/-! ### The others -/

theorem operations_branch (b : Branch) : operations [.operation (.branch b)] = 1 := by
  cases b <;> rfl

theorem obeyed_openBranch (sense : Bool) (hs : s.Sound) (hone : operations [i] = 1)
    (hpermitted : i.Permitted) (hnest : i.nest s.frames.length = some (s.frames.length + 1))
    (hcount : s.opCount + operations [i] ≤ maxOperations) :
    Obeyed m.primitives i s (openBranch sense (s.counted i)) := by
  have hfits : i.Fits s := ⟨hpermitted, hcount, by rw [hnest]; rfl⟩
  have hframes : s.frames.length + 1 ≤ s.frames.length + operations [i] := by rw [hone]
  rw [openBranch_apply]
  split
  · have hmain : (s.counted i).main = s.main := rfl
    rw [hmain]
    cases hitems : s.main with
    | nil => exact ⟨change_counted i hs, fun hstatic => Fault.elim_static rfl hstatic⟩
    | cons top rest =>
      have hbounded := hs.main
      rw [hitems, Stack.bounded_cons_iff] at hbounded
      refine ⟨{ change_counted i hs with
        main := hbounded.2.2, length_le := ?_, length_frames_le := hframes }, hfits, hnest⟩
      change rest.length + s.alt.length ≤ s.main.length + s.alt.length + 3
      rw [hitems, List.length_cons]
      omega
  · exact ⟨{ change_counted i hs with length_frames_le := hframes }, hfits, hnest⟩

theorem obeyed_unbalanced (hs : s.Sound) (hframes : s.frames = []) (hnest : i.nest 0 = none)
    (fault : Fault) : Obeyed m.primitives i s (.error fault (s.counted i)) :=
  ⟨change_counted i hs, fun _ _ hfits => absurd hfits.2.2 (by simp [hframes, hnest])⟩

theorem obeyed_branch (b : Branch) (hs : s.Sound)
    (hcount : s.opCount + operations [.operation (.branch b)] ≤ maxOperations) :
    Obeyed m.primitives (.operation (.branch b)) s
      (m.branch b (s.counted (.operation (.branch b)))) := by
  have hone := operations_branch b
  have hchange := change_counted (.operation (.branch b)) hs
  have hcounted : (s.counted (.operation (.branch b))).frames = s.frames := rfl
  cases b with
  | ifTrue => exact obeyed_openBranch true hs hone trivial rfl hcount
  | ifFalse => exact obeyed_openBranch false hs hone trivial rfl hcount
  | otherwise =>
    simp only [branch, turnBranch, hcounted]
    cases hframes : s.frames with
    | nil => exact obeyed_unbalanced hs hframes rfl _
    | cons frame outer =>
      have hnest : (Instruction.operation (.branch .otherwise)).nest s.frames.length =
          some s.frames.length := by simp [Instruction.nest, hframes]
      refine ⟨{ hchange with length_frames_le := ?_ }, ⟨trivial, hcount, by rw [hnest]; rfl⟩, ?_⟩
      · rw [hframes]
        exact Nat.le_add_right _ _
      · rw [hnest, hframes]
        rfl
  | endIf =>
    simp only [branch, closeBranch, hcounted]
    cases hframes : s.frames with
    | nil => exact obeyed_unbalanced hs hframes rfl _
    | cons frame outer =>
      have hnest : (Instruction.operation (.branch .endIf)).nest s.frames.length =
          some outer.length := by simp [Instruction.nest, hframes]
      refine ⟨{ hchange with length_frames_le := ?_ }, ⟨trivial, hcount, by rw [hnest]; rfl⟩,
        hnest⟩
      rw [hframes, List.length_cons]
      exact Nat.le_trans (Nat.le_succ _) (Nat.le_add_right _ _)

/-- **An item moves to another stack**, which is left by `put`: it finds room there, or does not,
and neither changes more than it may. -/
theorem obeyed_move {target : Stack} {item : Bytes} (hitem : item.length ≤ Stack.maxItemSize)
    (htarget : Bounded target) (hfits : i.Fits s)
    (hnest : i.nest s.frames.length = some s.frames.length) (put : Stack → State)
    (hput : ∀ stack, Bounded stack → stack.length ≤ target.length + 1 →
      Change i s (put stack) ∧ (put stack).frames = s.frames) :
    Obeyed m.primitives i s (match Stack.push (some Stack.maxItems) item target with
      | .ok _ stack => .ok () (put stack)
      | .error fault stack => .error fault (put stack)) := by
  have hF : ∀ fault : Fault, fault.isStatic = false → fault.isStatic = true →
      m.primitives.Short → ¬ i.Fits s := fun _ hdynamic hstatic =>
    Fault.elim_static hdynamic hstatic
  have hpush := Stack.tame_push hF (.inl hitem) target htarget
  cases hresult : Stack.push (some Stack.maxItems) item target with
  | ok _ stack =>
    rw [hresult] at hpush
    obtain ⟨hstack, hlen, -⟩ := hpush
    obtain ⟨hchange, hframes⟩ := hput stack hstack hlen
    exact ⟨hchange, hfits, by rw [hframes, hnest]⟩
  | error fault stack =>
    rw [hresult] at hpush
    obtain ⟨hstack, hlen, hfault⟩ := hpush
    exact ⟨(hput stack hstack hlen).1, hfault⟩

theorem obeyed_transfer (hcapacity : m.rules.capacity = some Stack.maxItems) (t : Transfer)
    (hs : s.Sound) (hcount : s.opCount + operations [.operation (.transfer t)] ≤ maxOperations) :
    Obeyed m.primitives (.operation (.transfer t)) s
      (m.transfer t (s.counted (.operation (.transfer t)))) := by
  have hchange := change_counted (.operation (.transfer t)) hs
  have hfits : (Instruction.operation (.transfer t)).Fits s := ⟨trivial, hcount, rfl⟩
  have hone : operations [.operation (.transfer t)] = 1 := by cases t <;> rfl
  have hmain_counted : (s.counted (.operation (.transfer t))).main = s.main := rfl
  have halt_counted : (s.counted (.operation (.transfer t))).alt = s.alt := rfl
  have hmoved : ∀ main alt : Stack, Bounded main → Bounded alt →
      main.length + alt.length ≤ s.main.length + s.alt.length → alt.length ≤ s.alt.length + 1 →
      Change (.operation (.transfer t)) s
        { s.counted (.operation (.transfer t)) with main, alt } := by
    intro main alt hmain halt hlen hlen_alt
    exact { hchange with
      main := hmain
      alt := halt
      length_le := Nat.le_trans hlen (Nat.le_add_right _ _)
      length_alt_le := by rw [hone]; exact hlen_alt }
  cases t with
  | toAlt =>
    rw [toAlt_apply, hcapacity, hmain_counted, halt_counted]
    cases hitems : s.main with
    | nil => exact ⟨hchange, fun hstatic => Fault.elim_static rfl hstatic⟩
    | cons item rest =>
      have hmain := hs.main
      rw [hitems, Stack.bounded_cons_iff] at hmain
      rw [hitems, List.length_cons] at hmoved
      exact obeyed_move hmain.1 hs.alt hfits rfl _ fun alt halt hlen =>
        ⟨hmoved rest alt hmain.2.2 halt (by omega) hlen, rfl⟩
  | fromAlt =>
    rw [fromAlt_apply, hcapacity, hmain_counted, halt_counted]
    cases hitems : s.alt with
    | nil => exact ⟨hchange, fun hstatic => Fault.elim_static rfl hstatic⟩
    | cons item rest =>
      have halt := hs.alt
      rw [hitems, Stack.bounded_cons_iff] at halt
      rw [hitems, List.length_cons] at hmoved
      exact obeyed_move halt.1 hs.main hfits rfl _ fun main hmain hlen =>
        ⟨hmoved main rest hmain halt.2.2 (by omega) (by omega), rfl⟩

theorem obeyed_carryOut (hcapacity : m.rules.capacity = some Stack.maxItems) (hs : s.Sound)
    (hshort : i.Short) (hcount : s.opCount + operations [i] ≤ maxOperations) :
    Obeyed m.primitives i s (m.carryOut i (s.counted i)) := by
  cases haction : m.mainAction? i with
  | some action => exact obeyed_mainAction? hcapacity hs hshort hcount haction
  | none =>
    rcases mainAction?_eq_none haction with ⟨b, rfl⟩ | ⟨t, rfl⟩ | rfl
    · exact obeyed_branch b hs hcount
    · exact obeyed_transfer hcapacity t hs hcount
    · exact ⟨{ change_counted _ hs with codeSeparator_eq := .inr ⟨rfl, rfl⟩ },
        ⟨trivial, hcount, rfl⟩, rfl⟩

theorem permitted_of_conditional (h : i.isUnconditional = false) (hshort : i.Short) :
    i.Permitted ∧ ∀ depth, i.nest depth = some depth := by
  cases i with
  | push form data => exact ⟨hshort, fun _ => rfl⟩
  | unassigned byte => exact ⟨trivial, fun _ => rfl⟩
  | operation op =>
    cases op with
    | branch b | forbidden f | disabled d => exact absurd h (by simp [Instruction.isUnconditional,
        Operation.isUnconditional])
    | _ => exact ⟨trivial, fun _ => rfl⟩

/-- **Obeying an instruction** changes no more than it may, succeeds only if the instruction fits,
and does not fail with a static fault if it does. -/
theorem obeyed (hcapacity : m.rules.capacity = some Stack.maxItems) (hi : i.Readable)
    (hs : s.Sound) : Obeyed m.primitives i s (m.obey i s) := by
  by_cases h : i.Short ∧ s.opCount + operations [i] ≤ maxOperations
  · obtain ⟨hshort, hcount⟩ := h
    rw [obey_eq hi hshort (Instruction.lt_of_isCounted hcount)]
    by_cases hcarried : i.isUnconditional || s.isExecuting
    · rw [if_pos hcarried]
      exact obeyed_carryOut hcapacity hs hshort hcount
    · rw [if_neg hcarried]
      have hconditional : i.isUnconditional = false := by
        rw [Bool.or_eq_true, not_or] at hcarried
        exact Bool.eq_false_iff.2 hcarried.1
      obtain ⟨hpermitted, hnest⟩ := permitted_of_conditional hconditional hshort
      exact ⟨change_counted i hs, ⟨hpermitted, hcount, by rw [hnest]; rfl⟩, hnest _⟩
  · obtain ⟨fault, hobey⟩ := obey_refused (m := m) hi h hs.opCount_le
    rw [hobey]
    exact ⟨change_counted i hs, fun _ _ hfits => h ⟨hfits.1.short, hfits.2.1⟩⟩

end Machine

end SpendScript
