import SpendScript.Proofs.Machine.Follow

/-!
# Blocks that are passed over

A *block* is a program that can stand in a branch of a conditional (`IsBlock`): its conditionals are
opened and closed in it, and nothing in it fails wherever it is met.  A block in a branch that is
not executed changes nothing but the counter and the number of operations
(`Machine.follow_of_not_executing`).

The conditionals that are opened on the way are all in branches that are not executed, and stay so
when they are turned.
-/

namespace SpendScript

open Instruction (operations nesting codeOf)

/-- A program that can stand in a branch. -/
structure IsBlock (program : List Instruction) : Prop where
  /-- Its instructions can stand in code. -/
  readable : ∀ i ∈ program, i.Readable
  /-- None of them fails wherever it is met. -/
  permitted : ∀ i ∈ program, i.Permitted
  /-- Its conditionals are opened and closed in it. -/
  balanced : Instruction.Balanced program

/-- The state behind a program whose operations were counted, with these conditionals open. -/
def State.past (s : State) (program : List Instruction) (frames : List Bool) : State :=
  { s with pc := s.pc + (codeOf program).length, opCount := s.opCount + operations program, frames }

theorem State.past_singleton (s : State) (i : Instruction) (frames : List Bool) :
    s.past [i] frames = { (s.behind i).counted i with frames } := by
  simp [State.past, State.counted, State.behind]

namespace Machine

variable {m : Machine} {i : Instruction} {program : List Instruction} {s : State}
  {outer : List Bool} {depth depth' : Nat}

theorem exists_branch (h : i.isUnconditional = true) (hpermitted : i.Permitted) :
    ∃ b, i = .operation (.branch b) := by
  cases i with
  | push form data => exact absurd h (by simp [Instruction.isUnconditional])
  | unassigned byte => exact absurd h (by simp [Instruction.isUnconditional])
  | operation op =>
    cases op with
    | branch b => exact ⟨b, rfl⟩
    | forbidden f | disabled d => exact hpermitted.elim
    | _ => exact absurd h (by simp [Instruction.isUnconditional, Operation.isUnconditional])

theorem all_replicate_append (houter : outer.all id = false) (depth : Nat) :
    (List.replicate depth false ++ outer).all id = false := by
  rw [List.all_append, houter, Bool.and_false]

theorem branch_of_not_executing (hturn : m.rules.turn = Rules.standard.turn)
    (houter : outer.all id = false) (hframes : s.frames = List.replicate depth false ++ outer)
    (b : Branch) (hnest : (Instruction.operation (.branch b)).nest depth = some depth') :
    m.branch b s = .ok () { s with frames := List.replicate depth' false ++ outer } := by
  have hexecuting : s.isExecuting = false := by
    rw [State.isExecuting, hframes]
    exact all_replicate_append houter depth
  have hopen : ∀ sense, openBranch sense s =
      .ok () { s with frames := List.replicate (depth + 1) false ++ outer } := by
    intro sense
    rw [openBranch_apply, if_neg (by simp [hexecuting]), hframes]
    rfl
  cases b with
  | ifTrue =>
    obtain rfl := Option.some.inj hnest
    exact hopen true
  | ifFalse =>
    obtain rfl := Option.some.inj hnest
    exact hopen false
  | otherwise =>
    cases depth with
    | zero => exact absurd hnest (by simp [Instruction.nest])
    | succ depth =>
      obtain rfl : depth + 1 = depth' := by simpa [Instruction.nest] using hnest
      rw [List.replicate_succ, List.cons_append] at hframes
      -- something around it is not executed, so neither is the other branch
      simp only [branch, turnBranch, hframes, hturn, Rules.standard,
        all_replicate_append houter depth, Bool.false_and]
      rfl
  | endIf =>
    cases depth with
    | zero => exact absurd hnest (by simp [Instruction.nest])
    | succ depth =>
      obtain rfl : depth = depth' := by simpa [Instruction.nest] using hnest
      rw [List.replicate_succ, List.cons_append] at hframes
      simp only [branch, closeBranch, hframes]

theorem pass_of_not_executing (hturn : m.rules.turn = Rules.standard.turn)
    (hs : s.status = .running) (hroom : s.main.length + s.alt.length ≤ Stack.maxItems)
    (houter : outer.all id = false) (hframes : s.frames = List.replicate depth false ++ outer)
    (hi : i.Readable) (hpermitted : i.Permitted)
    (hcount : s.opCount + operations [i] ≤ maxOperations) (hnest : i.nest depth = some depth') :
    m.pass s i = s.past [i] (List.replicate depth' false ++ outer) := by
  have hexecuting : s.isExecuting = false := by
    rw [State.isExecuting, hframes]
    exact all_replicate_append houter depth
  rw [pass_eq hs hi hpermitted.short hcount, State.past_singleton]
  cases hunconditional : i.isUnconditional with
  | false =>
    obtain ⟨-, hsame⟩ := permitted_of_conditional hunconditional hpermitted.short
    obtain rfl : depth = depth' := Option.some.inj ((hsame depth).symm.trans hnest)
    rw [hexecuting, if_neg (by simp), ← hframes]
    exact settle_ok hroom
  | true =>
    obtain ⟨b, rfl⟩ := exists_branch hunconditional hpermitted
    have hbranch := branch_of_not_executing hturn houter
      (s := (s.behind (.operation (.branch b))).counted (.operation (.branch b))) hframes b hnest
    rw [if_pos (by simp)]
    change settle (m.branch b _) = _
    rw [hbranch]
    exact settle_ok hroom

theorem follow_replicate (hturn : m.rules.turn = Rules.standard.turn)
    (hs : s.status = .running) (hroom : s.main.length + s.alt.length ≤ Stack.maxItems)
    (houter : outer.all id = false) (hframes : s.frames = List.replicate depth false ++ outer)
    (hreadable : ∀ i ∈ program, i.Readable) (hpermitted : ∀ i ∈ program, i.Permitted)
    (hcount : s.opCount + operations program ≤ maxOperations)
    (hnesting : nesting depth program = some depth') :
    m.follow program s = s.past program (List.replicate depth' false ++ outer) := by
  induction program generalizing s depth with
  | nil =>
    obtain rfl := Option.some.inj hnesting
    rw [← hframes]
    rfl
  | cons i program ih =>
    rw [List.forall_mem_cons] at hreadable hpermitted
    rw [Instruction.operations_cons] at hcount
    rw [Instruction.nesting_cons] at hnesting
    obtain ⟨between, hnest, hrest⟩ := Option.bind_eq_some_iff.1 hnesting
    have hpass := pass_of_not_executing hturn hs hroom houter hframes hreadable.1 hpermitted.1
      (by omega) hnest
    rw [follow_cons, hpass, ih (s := s.past [i] _) hs hroom rfl hreadable.2 hpermitted.2 ?_ hrest]
    · simp only [State.past, Instruction.codeOf_cons, Instruction.codeOf_nil, List.append_nil,
        List.length_append, @Instruction.operations_cons i program, Nat.add_assoc]
    · change s.opCount + operations [i] + operations program ≤ maxOperations
      omega

/-- **A block that is passed over** changes nothing but the counter and the number of operations. -/
theorem follow_of_not_executing (hturn : m.rules.turn = Rules.standard.turn)
    (hblock : IsBlock program) (hs : s.status = .running) (hexecuting : s.isExecuting = false)
    (hroom : s.main.length + s.alt.length ≤ Stack.maxItems)
    (hcount : s.opCount + operations program ≤ maxOperations) :
    m.follow program s = s.past program s.frames := by
  have hframes : s.frames = List.replicate 0 false ++ s.frames := rfl
  exact follow_replicate hturn hs hroom hexecuting hframes hblock.readable hblock.permitted hcount
    hblock.balanced

end Machine

end SpendScript
