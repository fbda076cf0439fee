import SpendScript.Proofs.Machine.Follow

/-!
# One more open conditional

A program does the same to both stacks, and fails with the same fault, whether or not there is one
more open conditional around it, as long as that one is executed and the program neither turns nor
closes it.  Two states that differ in this way are *mirrors* (`Machine.Mirrors`).

* `Machine.Mirrors.follow` : a program takes mirrors to mirrors.
-/

namespace SpendScript

open Instruction (operations nesting)

namespace Machine

/-- The states agree in both stacks, the status and all open conditionals, except that the left one
has a conditional more that is executed, between `inner` and `outer`. -/
structure Mirrors (outer inner : List Bool) (s u : State) : Prop where
  /-- The main stacks are the same. -/
  main_eq : u.main = s.main
  /-- The alternate stacks are the same. -/
  alt_eq : u.alt = s.alt
  /-- Both run, or both ended in the same way. -/
  status_eq : u.status = s.status
  /-- The left state has the conditional. -/
  frames_left : s.frames = inner ++ true :: outer
  /-- The right state has it not. -/
  frames_right : u.frames = inner ++ outer

/-- The outcomes are both successes that leave mirrors with `depth` inner conditionals, or both
failures with the same fault that leave mirrors. -/
def MirrorResults (outer : List Bool) (depth : Nat) :
    EStateM.Result Fault State Unit → EStateM.Result Fault State Unit → Prop
  | .ok _ s, .ok _ u => ∃ inner, inner.length = depth ∧ Mirrors outer inner s u
  | .error fault s, .error fault' u => fault = fault' ∧ ∃ inner, Mirrors outer inner s u
  | _, _ => False

variable {m : Machine} {i : Instruction} {program : List Instruction} {s u : State}
  {outer inner : List Bool} {depth : Nat}

namespace Mirrors

theorem isExecuting_eq (h : Mirrors outer inner s u) : u.isExecuting = s.isExecuting := by
  simp [State.isExecuting, h.frames_left, h.frames_right]

theorem behind_counted (h : Mirrors outer inner s u) (i : Instruction) :
    Mirrors outer inner ((s.behind i).counted i) ((u.behind i).counted i) :=
  ⟨h.main_eq, h.alt_eq, h.status_eq, h.frames_left, h.frames_right⟩

theorem openBranch (h : Mirrors outer inner s u) (sense : Bool) :
    MirrorResults outer (inner.length + 1) (openBranch sense s) (openBranch sense u) := by
  rw [openBranch_apply, openBranch_apply, h.isExecuting_eq, h.main_eq]
  have hcons : ∀ frame : Bool, frame :: s.frames = (frame :: inner) ++ true :: outer ∧
      frame :: u.frames = (frame :: inner) ++ outer := by
    intro frame
    rw [h.frames_left, h.frames_right]
    exact ⟨rfl, rfl⟩
  split
  · cases s.main with
    | nil => exact ⟨rfl, inner, h⟩
    | cons top rest =>
      exact ⟨_ :: inner, rfl, rfl, h.alt_eq, h.status_eq, (hcons _).1, (hcons _).2⟩
  · exact ⟨_ :: inner, rfl, rfl, h.alt_eq, h.status_eq, (hcons _).1, (hcons _).2⟩

theorem branch (hturn : m.rules.turn = Rules.standard.turn) (h : Mirrors outer inner s u)
    (b : Branch) (hnest : (Instruction.operation (.branch b)).nest inner.length = some depth) :
    MirrorResults outer depth (m.branch b s) (m.branch b u) := by
  cases b with
  | ifTrue =>
    obtain rfl := Option.some.inj hnest
    exact h.openBranch true
  | ifFalse =>
    obtain rfl := Option.some.inj hnest
    exact h.openBranch false
  | otherwise =>
    cases inner with
    | nil => exact absurd hnest (by simp [Instruction.nest])
    | cons frame inner =>
      obtain rfl : inner.length + 1 = depth := by simpa [Instruction.nest] using hnest
      have hleft : s.frames = frame :: (inner ++ true :: outer) := h.frames_left
      have hright : u.frames = frame :: (inner ++ outer) := h.frames_right
      -- the branch that is turned to depends on what is around it only by whether all is executed
      have hsame : Rules.standard.turn (inner ++ outer) frame =
          Rules.standard.turn (inner ++ true :: outer) frame := by simp [Rules.standard]
      simp only [Machine.branch, turnBranch, hleft, hright, hturn, hsame]
      exact ⟨_ :: inner, rfl, h.main_eq, h.alt_eq, h.status_eq, rfl, rfl⟩
  | endIf =>
    cases inner with
    | nil => exact absurd hnest (by simp [Instruction.nest])
    | cons frame inner =>
      obtain rfl : inner.length = depth := by simpa [Instruction.nest] using hnest
      have hleft : s.frames = frame :: (inner ++ true :: outer) := h.frames_left
      have hright : u.frames = frame :: (inner ++ outer) := h.frames_right
      simp only [Machine.branch, closeBranch, hleft, hright]
      exact ⟨inner, rfl, h.main_eq, h.alt_eq, h.status_eq, rfl, rfl⟩

theorem transfer (h : Mirrors outer inner s u) (t : Transfer) :
    MirrorResults outer inner.length (m.transfer t s) (m.transfer t u) := by
  rw [transfer_apply, transfer_apply, h.main_eq, h.alt_eq]
  cases moved m.rules.capacity t s.main s.alt with
  | ok _ both => exact ⟨inner, rfl, rfl, rfl, h.status_eq, h.frames_left, h.frames_right⟩
  | error fault both => exact ⟨rfl, inner, rfl, rfl, h.status_eq, h.frames_left, h.frames_right⟩

/-- **Carrying out an instruction takes mirrors to mirrors.** -/
theorem carryOut (hturn : m.rules.turn = Rules.standard.turn) (h : Mirrors outer inner s u)
    (hnest : i.nest inner.length = some depth) :
    MirrorResults outer depth (m.carryOut i s) (m.carryOut i u) := by
  cases haction : m.mainAction? i with
  | some action =>
    obtain rfl := Option.some.inj ((nest_of_mainAction? haction _).symm.trans hnest)
    rw [carryOut_eq_onMain haction, Effect.onMain_apply, Effect.onMain_apply, h.main_eq]
    cases action s.main with
    | ok _ main => exact ⟨inner, rfl, rfl, h.alt_eq, h.status_eq, h.frames_left, h.frames_right⟩
    | error fault main =>
      exact ⟨rfl, inner, rfl, h.alt_eq, h.status_eq, h.frames_left, h.frames_right⟩
  | none =>
    rcases mainAction?_eq_none haction with ⟨b, rfl⟩ | ⟨t, rfl⟩ | rfl
    · exact h.branch hturn b hnest
    · obtain rfl := Option.some.inj hnest
      exact h.transfer t
    · obtain rfl := Option.some.inj hnest
      exact ⟨inner, rfl, h.main_eq, h.alt_eq, h.status_eq, h.frames_left, h.frames_right⟩

theorem settle {r r' : EStateM.Result Fault State Unit} (h : MirrorResults outer depth r r') :
    ∃ inner, Mirrors outer inner (settle r) (settle r') ∧
      ((Machine.settle r).status = .running → inner.length = depth) := by
  cases r with
  | ok _ s =>
    cases r' with
    | error fault u => exact h.elim
    | ok _ u =>
      obtain ⟨inner, hlen, h⟩ := h
      refine ⟨inner, ?_, fun _ => hlen⟩
      unfold Machine.settle
      dsimp only
      rw [h.main_eq, h.alt_eq]
      split
      · exact ⟨rfl, rfl, rfl, h.frames_left, h.frames_right⟩
      · exact h
  | error fault s =>
    cases r' with
    | ok _ u => exact h.elim
    | error fault' u =>
      obtain ⟨rfl, inner, h⟩ := h
      exact ⟨inner, ⟨h.main_eq, h.alt_eq, rfl, h.frames_left, h.frames_right⟩,
        fun hrunning => absurd hrunning (by simp [Machine.settle])⟩

theorem pass (hturn : m.rules.turn = Rules.standard.turn) (h : Mirrors outer inner s u)
    (hs : s.status = .running) (hi : i.Readable) (hpermitted : i.Permitted)
    (hleft : s.opCount + operations [i] ≤ maxOperations)
    (hright : u.opCount + operations [i] ≤ maxOperations)
    (hnest : i.nest inner.length = some depth) :
    ∃ inner', Mirrors outer inner' (m.pass s i) (m.pass u i) ∧
      ((m.pass s i).status = .running → inner'.length = depth) := by
  have hu : u.status = .running := h.status_eq.trans hs
  rw [pass_eq hs hi hpermitted.short hleft, pass_eq hu hi hpermitted.short hright,
    h.isExecuting_eq]
  split
  · exact settle ((h.behind_counted i).carryOut hturn hnest)
  · rename_i hpassed
    have hconditional : i.isUnconditional = false := by
      rw [Bool.or_eq_true, not_or] at hpassed
      exact Bool.eq_false_iff.2 hpassed.1
    obtain ⟨-, hsame⟩ := permitted_of_conditional hconditional hpermitted.short
    obtain rfl := Option.some.inj ((hsame _).symm.trans hnest)
    exact settle ⟨inner, rfl, h.behind_counted i⟩

/-- **A program takes mirrors to mirrors**, if it turns and closes only conditionals that are
inside. -/
theorem follow (hturn : m.rules.turn = Rules.standard.turn) (h : Mirrors outer inner s u)
    (hs : s.status = .running) (hreadable : ∀ i ∈ program, i.Readable)
    (hpermitted : ∀ i ∈ program, i.Permitted)
    (hleft : s.opCount + operations program ≤ maxOperations)
    (hright : u.opCount + operations program ≤ maxOperations)
    (hnesting : nesting inner.length program = some depth) :
    ∃ inner', Mirrors outer inner' (m.follow program s) (m.follow program u) ∧
      ((m.follow program s).status = .running → inner'.length = depth) := by
  induction program generalizing s u inner with
  | nil => exact ⟨inner, h, fun _ => Option.some.inj hnesting⟩
  | cons i program ih =>
    rw [List.forall_mem_cons] at hreadable hpermitted
    rw [Instruction.operations_cons] at hleft hright
    rw [Instruction.nesting_cons] at hnesting
    obtain ⟨between, hnest, hrest⟩ := Option.bind_eq_some_iff.1 hnesting
    obtain ⟨inner', hmirrors, hlen⟩ :=
      h.pass hturn hs hreadable.1 hpermitted.1 (by omega) (by omega) hnest
    rw [follow_cons, follow_cons]
    by_cases hrunning : (m.pass s i).status = .running
    · obtain ⟨-, hcount, -⟩ :=
        pass_spec (m := m) hs hreadable.1
      obtain ⟨-, hcount', -⟩ :=
        pass_spec (m := m) (h.status_eq.trans hs) hreadable.1
      rw [← hlen hrunning] at hrest
      exact ih hmirrors hrunning hreadable.2 hpermitted.2 (by omega) (by omega) hrest
    · rw [follow_of_halted hrunning, follow_of_halted (hmirrors.status_eq ▸ hrunning)]
      exact ⟨inner', hmirrors, fun hrun => absurd hrun hrunning⟩

end Mirrors

end Machine

end SpendScript
