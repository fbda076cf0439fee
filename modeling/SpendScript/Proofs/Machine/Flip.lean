import SpendScript.Crypto.ScriptSignature
import SpendScript.Proofs.Machine.Calls

/-!
# Turning a conditional by flipping its frame

The standard rules turn a conditional to its other branch, which is executed only if everything
around it is.  A machine may as well just flip the innermost frame (`Machine.flipping`).  Inside a
branch that is not executed the two get different frames, but never differ in the outermost frames
up to the first one that is false (`CoupledFrames`), and nothing else is ever looked at.

* `CoupledFrames.pairwise` : with the standard rules, every frame inside one that is false is false;
* `Machine.Coupled.next` : a step takes coupled states to coupled states;
* `Machine.lockstep_flipping` : so both machines do the same after every number of steps.
-/

namespace SpendScript

/-- Frames of the standard rules and flipped frames, innermost first: they are the same where
everything around them is executed, and inside a branch that is not executed the standard ones are
false. -/
inductive CoupledFrames : List Bool → List Bool → Prop
  /-- No conditional is open. -/
  | nil : CoupledFrames [] []
  /-- Everything around the innermost conditional is executed. -/
  | executed {outer outer' : List Bool} (houter : CoupledFrames outer outer')
      (hall : outer.all id = true) (frame : Bool) : CoupledFrames (frame :: outer) (frame :: outer')
  /-- Something around the innermost conditional is not executed. -/
  | skipped {outer outer' : List Bool} (houter : CoupledFrames outer outer')
      (hall : outer.all id = false) (frame : Bool) :
      CoupledFrames (false :: outer) (frame :: outer')

namespace CoupledFrames

variable {frames frames' : List Bool}

theorem length_eq (h : CoupledFrames frames frames') : frames'.length = frames.length := by
  induction h with
  | nil => rfl
  | executed _ _ _ ih | skipped _ _ _ ih => rw [List.length_cons, List.length_cons, ih]

theorem all_eq (h : CoupledFrames frames frames') : frames'.all id = frames.all id := by
  induction h with
  | nil => rfl
  | executed _ _ _ ih => rw [List.all_cons, List.all_cons, ih]
  | skipped _ hall _ ih =>
    rw [List.all_cons, List.all_cons, ih, hall, Bool.and_false, Bool.and_false]

/-- **Every frame inside one that is false is false.** -/
theorem pairwise (h : CoupledFrames frames frames') :
    frames.Pairwise fun inner outer => outer = false → inner = false := by
  induction h with
  | nil => exact .nil
  | executed _ hall _ ih =>
    refine .cons (fun outer hmem houter => ?_) ih
    rw [List.all_eq_true] at hall
    exact absurd (hall outer hmem) (by simp [houter])
  | skipped _ _ _ ih => exact .cons (fun _ _ _ => rfl) ih

theorem turn {frame frame' : Bool} (h : CoupledFrames (frame :: frames) (frame' :: frames')) :
    CoupledFrames (Rules.standard.turn frames frame :: frames) ((!frame') :: frames') := by
  cases h with
  | executed houter hall _ =>
    simp only [Rules.standard, hall, Bool.true_and]
    exact houter.executed hall _
  | skipped houter hall _ =>
    simp only [Rules.standard, hall, Bool.false_and]
    exact houter.skipped hall _

end CoupledFrames

/-- Everything is executed just if no conditional is open or the innermost frame is true, given that
frames inside false ones are false. -/
theorem all_iff_of_pairwise {frames : List Bool}
    (h : frames.Pairwise fun inner outer => outer = false → inner = false) :
    frames.all id = true ↔ frames = [] ∨ frames.head? = some true := by
  cases h with
  | nil => simp
  | @cons frame outer hinner _ =>
    cases frame with
    | false => simp
    | true =>
      have hall : ∀ frame ∈ outer, frame = true := fun frame hmem => by
        cases frame with
        | true => rfl
        | false => exact absurd (hinner false hmem rfl) (by simp)
      simpa using hall

namespace Machine

/-- The machine that flips the innermost frame, whatever is around it. -/
def flipping (m : Machine) : Machine :=
  { m with rules := { m.rules with turn := fun _ frame => !frame } }

/-- The states differ in their frames at most, and those are coupled. -/
inductive Coupled (s : State) : State → Prop
  | mk {frames : List Bool} (hframes : CoupledFrames s.frames frames) : Coupled s { s with frames }

/-- The outcomes are both successes, or both failures with the same fault, and leave coupled
states. -/
def CoupledResults : EStateM.Result Fault State Unit → EStateM.Result Fault State Unit → Prop
  | .ok _ s, .ok _ u => Coupled s u
  | .error fault s, .error fault' u => fault = fault' ∧ Coupled s u
  | _, _ => False

/-- Nothing but the frames inside branches that are not executed tells the states apart. -/
structure Alike (s u : State) : Prop where
  /-- The counters are the same. -/
  pc_eq : u.pc = s.pc
  /-- The main stacks are the same. -/
  main_eq : u.main = s.main
  /-- The alternate stacks are the same. -/
  alt_eq : u.alt = s.alt
  /-- As many operations were met. -/
  opCount_eq : u.opCount = s.opCount
  /-- The last code separators stand at the same place. -/
  codeSeparator_eq : u.codeSeparator = s.codeSeparator
  /-- As many conditionals are open. -/
  length_frames_eq : u.frames.length = s.frames.length
  /-- Both are in a branch that is executed, or neither is. -/
  isExecuting_eq : u.isExecuting = s.isExecuting
  /-- Both run, or both ended in the same way. -/
  status_eq : u.status = s.status

variable {m : Machine} {s u : State}

namespace Coupled

theorem alike (h : Coupled s u) : Alike s u := by
  obtain ⟨hframes⟩ := h
  exact ⟨rfl, rfl, rfl, rfl, rfl, hframes.length_eq, hframes.all_eq, rfl⟩

theorem isExecuting_eq (h : Coupled s u) : u.isExecuting = s.isExecuting :=
  h.alike.isExecuting_eq

theorem openBranch (h : Coupled s u) (sense : Bool) :
    CoupledResults (openBranch sense s) (openBranch sense u) := by
  have hexecuting := h.isExecuting_eq
  obtain ⟨hframes⟩ := h
  obtain ⟨pc, main, alt, frames, opCount, codeSeparator, status⟩ := s
  rw [openBranch_apply, openBranch_apply, hexecuting]
  split
  · rename_i hall
    cases main with
    | nil => exact ⟨rfl, .mk hframes⟩
    | cons top rest => exact .mk (hframes.executed hall _)
  · rename_i hall
    exact .mk (hframes.skipped (Bool.eq_false_iff.2 hall) false)

theorem branch (hturn : m.rules.turn = Rules.standard.turn) (h : Coupled s u) (b : Branch) :
    CoupledResults (m.branch b s) (m.flipping.branch b u) := by
  cases b with
  | ifTrue => exact h.openBranch true
  | ifFalse => exact h.openBranch false
  | otherwise =>
    obtain ⟨hframes⟩ := h
    obtain ⟨pc, main, alt, frames, opCount, codeSeparator, status⟩ := s
    simp only [Machine.branch, turnBranch, hturn]
    cases hframes with
    | nil => exact ⟨rfl, .mk .nil⟩
    | executed houter hall frame => exact .mk (houter.executed hall frame).turn
    | skipped houter hall frame => exact .mk (houter.skipped hall frame).turn
  | endIf =>
    obtain ⟨hframes⟩ := h
    obtain ⟨pc, main, alt, frames, opCount, codeSeparator, status⟩ := s
    simp only [Machine.branch, closeBranch]
    cases hframes with
    | nil => exact ⟨rfl, .mk .nil⟩
    | executed houter _ _ | skipped houter _ _ => exact .mk houter

theorem transfer (h : Coupled s u) (t : Transfer) :
    CoupledResults (m.transfer t s) (m.flipping.transfer t u) := by
  have hcapacity : m.flipping.rules.capacity = m.rules.capacity := rfl
  obtain ⟨hframes⟩ := h
  rw [transfer_apply, transfer_apply, hcapacity]
  dsimp only
  cases moved m.rules.capacity t s.main s.alt with
  | ok _ both => exact .mk hframes
  | error fault both => exact ⟨rfl, .mk hframes⟩

/-- **Carrying out an instruction keeps states coupled.** -/
theorem carryOut (hturn : m.rules.turn = Rules.standard.turn) (h : Coupled s u)
    (i : Instruction) : CoupledResults (m.carryOut i s) (m.flipping.carryOut i u) := by
  have hsame : m.flipping.mainAction? i = m.mainAction? i := by
    cases i with
    | push form data => rfl
    | unassigned byte => rfl
    | operation op => cases op <;> rfl
  cases haction : m.mainAction? i with
  | some action =>
    obtain ⟨hframes⟩ := h
    rw [carryOut_eq_onMain haction, carryOut_eq_onMain (hsame.trans haction),
      Effect.onMain_apply, Effect.onMain_apply]
    dsimp only
    cases action s.main with
    | ok _ main => exact .mk hframes
    | error fault main => exact ⟨rfl, .mk hframes⟩
  | none =>
    rcases mainAction?_eq_none haction with ⟨b, rfl⟩ | ⟨t, rfl⟩ | rfl
    · exact h.branch hturn b
    · exact h.transfer t
    · obtain ⟨hframes⟩ := h
      exact .mk hframes

theorem count (h : Coupled s u) : CoupledResults (count s) (Machine.count u) := by
  obtain ⟨hframes⟩ := h
  rw [count_apply, count_apply]
  dsimp only
  split
  · exact .mk hframes
  · exact ⟨rfl, .mk hframes⟩

theorem results_bind {x y : Effect Unit} {f g : Unit → Effect Unit}
    (h : CoupledResults (x s) (y u))
    (hnext : ∀ t v, Coupled t v → CoupledResults (f () t) (g () v)) :
    CoupledResults ((x >>= f) s) ((y >>= g) u) := by
  rw [Effect.bind_apply, Effect.bind_apply]
  cases hx : x s with
  | ok _ t =>
    rw [hx] at h
    cases hy : y u with
    | ok _ v => exact hnext t v (by rwa [hy] at h)
    | error fault v => exact (by rwa [hy] at h : False).elim
  | error fault t =>
    rw [hx] at h
    cases hy : y u with
    | ok _ v => exact (by rwa [hy] at h : False).elim
    | error fault' v => rwa [hy] at h

theorem lifts : Lifts Coupled CoupledResults where
  ok h := h
  error _ h := ⟨rfl, h⟩
  isExecuting_eq := isExecuting_eq
  count_bind h hnext := results_bind h.count hnext

/-- **Obeying an instruction keeps states coupled**, whether it is carried out or passed over. -/
theorem obey (hturn : m.rules.turn = Rules.standard.turn) (h : Coupled s u) (i : Instruction) :
    CoupledResults (m.obey i s) (m.flipping.obey i u) :=
  lifts.obey (fun _ _ _ hnext => hnext.carryOut hturn i) h

theorem advance (hturn : m.rules.turn = Rules.standard.turn) (h : Coupled s u) :
    CoupledResults (m.advance s) (m.flipping.advance u) := by
  have hcode : m.flipping.code.drop u.pc = m.code.drop s.pc := by
    obtain ⟨-⟩ := h
    rfl
  unfold Machine.advance
  rw [hcode]
  cases m.code.drop s.pc with
  | nil =>
    obtain ⟨hframes⟩ := h
    obtain ⟨pc, main, alt, frames, opCount, codeSeparator, status⟩ := s
    simp only [finish]
    cases hframes with
    | nil => exact .mk .nil
    | executed houter hall frame => exact ⟨rfl, .mk (houter.executed hall frame)⟩
    | skipped houter hall frame => exact ⟨rfl, .mk (houter.skipped hall frame)⟩
  | cons first rest =>
    refine results_bind ?_ fun t v hnext => ?_
    · obtain ⟨hframes⟩ := h
      unfold attempt
      dsimp only
      cases Instruction.read first rest with
      | truncated size => exact ⟨rfl, .mk hframes⟩
      | complete i size =>
        exact Coupled.obey hturn (s := { s with pc := s.pc + size }) (.mk hframes) i
    · obtain ⟨hframes⟩ := hnext
      simp only [checkRoom]
      split
      · exact ⟨rfl, .mk hframes⟩
      · exact .mk hframes

/-- **A step keeps states coupled.** -/
theorem next (hturn : m.rules.turn = Rules.standard.turn) (h : Coupled s u) :
    Coupled (m.next s) (m.flipping.next u) := by
  have hstatus : u.status = s.status := h.alike.status_eq
  by_cases hs : s.status = .running
  · have hadvance := h.advance hturn
    rw [next_eq_of_advance hs, next_eq_of_advance (hstatus.trans hs)]
    cases hleft : m.advance s with
    | ok _ t =>
      rw [hleft] at hadvance
      cases hright : m.flipping.advance u with
      | ok _ v => rwa [hright] at hadvance
      | error fault v => exact (by rwa [hright] at hadvance : False).elim
    | error fault t =>
      rw [hleft] at hadvance
      cases hright : m.flipping.advance u with
      | ok _ v => exact (by rwa [hright] at hadvance : False).elim
      | error fault' v =>
        rw [hright] at hadvance
        obtain ⟨rfl, ⟨hframes⟩⟩ := hadvance
        exact .mk hframes
  · rw [next_of_halted hs, next_of_halted (hstatus ▸ hs)]
    exact h

theorem iterate (hturn : m.rules.turn = Rules.standard.turn) (h : Coupled s u) (k : Nat) :
    Coupled (m.next^[k] s) (m.flipping.next^[k] u) := by
  induction k generalizing s u with
  | zero => exact h
  | succ k ih =>
    rw [Function.iterate_succ_apply, Function.iterate_succ_apply]
    exact ih (h.next hturn)

end Coupled

theorem invariant_exists_coupled (hturn : m.rules.turn = Rules.standard.turn) :
    m.Invariant fun s => ∃ u, Coupled s u where
  next _ _ h := by
    obtain ⟨u, h⟩ := h
    exact ⟨_, h.next hturn⟩
  cancelled s _ h := by
    obtain ⟨_, ⟨hframes⟩⟩ := h
    exact ⟨_, .mk (s := s.cancelled) hframes⟩

/-- **A machine that flips frames does the same as one with the standard rules**, after every
number of steps.  However a machine with the standard rules is driven, every frame inside one that
is false is false, so that the innermost frame alone tells whether everything is executed. -/
theorem lockstep_flipping {primitives : Primitives} {digest : Digest} {code : Bytes}
    (h : Machine.load primitives digest code = .ok m) (k : Nat) (cs : List Call) :
    Alike (m.next^[k] {}) (m.flipping.next^[k] {}) ∧
      ((m.calls cs {}).frames.Pairwise fun inner outer => outer = false → inner = false) ∧
      ((m.calls cs {}).isExecuting = true ↔
        (m.calls cs {}).frames = [] ∨ (m.calls cs {}).frames.head? = some true) := by
  have hturn : m.rules.turn = Rules.standard.turn := by
    obtain ⟨-, -, -, hrules⟩ := of_load h
    rw [hrules]
  have hstart : Coupled {} {} := .mk .nil
  obtain ⟨_, hcalls⟩ := (invariant_exists_coupled hturn).calls cs ⟨_, hstart⟩
  obtain ⟨hframes⟩ := hcalls
  exact ⟨(hstart.iterate hturn k).alike, hframes.pairwise, all_iff_of_pairwise hframes.pairwise⟩

/-- A conditional is opened and turned inside a branch that is not executed: the frames differ, and
nothing else does. -/
theorem lockstep_flipping_skipped :
    ∃ m, Machine.load .standard .zero [0x00, 0x63, 0x63, 0x67, 0x68, 0x67, 0x51, 0x68] = .ok m ∧
      (m.next^[4] {}).frames = [false, false] ∧ (m.flipping.next^[4] {}).frames = [true, false] ∧
      Alike (m.next^[4] {}) (m.flipping.next^[4] {}) :=
  ⟨_, load_eq (by decide), by decide +kernel, by decide +kernel,
    (lockstep_flipping (load_eq (by decide)) 4 []).1⟩

end Machine

end SpendScript
