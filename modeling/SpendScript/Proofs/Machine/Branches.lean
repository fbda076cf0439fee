import SpendScript.Crypto.ScriptSignature
import SpendScript.Proofs.Machine.Mirror
import SpendScript.Proofs.Machine.PassOver
import Mathlib.Data.List.Flatten

/-!
# Branches of conditionals

A conditional may turn any number of times, and so has any number of branches.  Those at even places
are executed if the item that it takes has the truth value that it asks for, those at odd places if
not (`selected`).

* `Machine.next_conditional` : running through a conditional does to both stacks, and fails as,
  running the selected branches alone does; the others change nothing but the counter and the number
  of operations.
-/

namespace SpendScript

open Instruction (operations nesting codeOf)

/-- The words of a conditional behind the one that opens it. -/
def conditionalBody (blocks : List (List Instruction)) : List Instruction :=
  [.operation (.branch .otherwise)].intercalate blocks ++ [.operation (.branch .endIf)]

/-- The word that opens a conditional whose first branch is executed on a true item, or on a false
one. -/
def opener (sense : Bool) : Instruction :=
  .operation (.branch (if sense then .ifTrue else .ifFalse))

/-- The conditional with these blocks as its branches. -/
def conditional (sense : Bool) (blocks : List (List Instruction)) : List Instruction :=
  opener sense :: conditionalBody blocks

/-- The blocks at even places, or those at odd places, one after the other. -/
def selected (even : Bool) (blocks : List (List Instruction)) : List Instruction :=
  ((blocks.zipIdx.filter fun p => (p.2 % 2 == 0) == even).map Prod.fst).flatten

variable {even sense : Bool} {block : List Instruction} {blocks : List (List Instruction)}

@[simp] theorem selected_nil : selected even [] = [] := rfl

/-- Behind a branch, the places are counted the other way. -/
theorem selected_cons : selected even (block :: blocks) =
    (if even then block else []) ++ selected (!even) blocks := by
  have hshift : ∀ n : Nat, (((n + 1) % 2 == 0) == even) = ((n % 2 == 0) == !even) := by
    intro n
    rcases Nat.mod_two_eq_zero_or_one n with h | h <;> cases even <;> simp [Nat.add_mod, h]
  have hrest : ((blocks.zipIdx 1).filter fun p => (p.2 % 2 == 0) == even).map Prod.fst =
      (blocks.zipIdx.filter fun p => (p.2 % 2 == 0) == !even).map Prod.fst := by
    rw [List.zipIdx_succ, List.filter_map, List.map_map]
    simp only [Function.comp_def, hshift]
  unfold selected
  rw [List.zipIdx_cons, List.filter_cons]
  cases even with
  | false => simpa using congrArg List.flatten hrest
  | true => simpa using congrArg List.flatten hrest

theorem conditionalBody_nil : conditionalBody [] = [.operation (.branch .endIf)] := rfl

theorem conditionalBody_singleton (block : List Instruction) :
    conditionalBody [block] = block ++ [.operation (.branch .endIf)] := by
  simp [conditionalBody]

theorem conditionalBody_cons (block next : List Instruction) (blocks : List (List Instruction)) :
    conditionalBody (block :: next :: blocks) =
      block ++ .operation (.branch .otherwise) :: conditionalBody (next :: blocks) := by
  simp [conditionalBody]

theorem forall_mem_conditionalBody {P : Instruction → Prop}
    (hblocks : ∀ block ∈ blocks, ∀ i ∈ block, P i) (hbranch : ∀ b, P (.operation (.branch b))) :
    ∀ i ∈ conditionalBody blocks, P i := by
  induction blocks with
  | nil => simpa [conditionalBody_nil] using hbranch .endIf
  | cons block blocks ih =>
    obtain ⟨hblock, hblocks⟩ := List.forall_mem_cons.1 hblocks
    cases blocks with
    | nil =>
      rw [conditionalBody_singleton]
      exact List.forall_mem_append.2 ⟨hblock, by simpa using hbranch .endIf⟩
    | cons next blocks =>
      rw [conditionalBody_cons]
      exact List.forall_mem_append.2 ⟨hblock,
        List.forall_mem_cons.2 ⟨hbranch .otherwise, ih hblocks⟩⟩

theorem selected_sublist (even : Bool) (blocks : List (List Instruction)) :
    (selected even blocks).Sublist (conditionalBody blocks) := by
  induction blocks generalizing even with
  | nil => exact List.nil_sublist _
  | cons block blocks ih =>
    rw [selected_cons]
    have hblock : (if even then block else []).Sublist block := by
      split
      · exact List.Sublist.refl _
      · exact List.nil_sublist _
    cases blocks with
    | nil =>
      rw [selected_nil, conditionalBody_singleton]
      exact hblock.append (List.nil_sublist _)
    | cons next blocks =>
      rw [conditionalBody_cons]
      exact hblock.append ((ih (!even)).cons _)

namespace Machine

variable {m : Machine} {s t u : State} {outer : List Bool} {frame : Bool}

/-- The left state is on its way through a conditional, of which `inside` is open, and the right one
has met only what is executed of it.  The stacks agree.  Both go on, or both failed with the same
fault in the same place of a branch. -/
structure Parallel (inside outer : List Bool) (t u : State) : Prop where
  /-- The main stacks are the same. -/
  main_eq : u.main = t.main
  /-- The alternate stacks are the same. -/
  alt_eq : u.alt = t.alt
  /-- Both go on, or both ended in the same way. -/
  status_eq : u.status = t.status
  /-- If they go on, nothing of the conditional is open on the right, where no more operations were
  met. -/
  running : t.status = .running →
    t.frames = inside ++ outer ∧ u.frames = outer ∧ u.opCount ≤ t.opCount
  /-- If they ended, they failed, and a branch of the conditional that is executed was open on the
  left. -/
  halted : t.status ≠ .running → (∃ fault, t.status = .failed fault) ∧
    ∃ inner, t.frames = inner ++ true :: outer ∧ u.frames = inner ++ outer

/-! ### The words of the conditional -/

theorem pass_branch (hs : s.status = .running) {b : Branch}
    (hcount : s.opCount + operations [.operation (.branch b)] ≤ maxOperations)
    (hbranch : m.branch b ((s.behind (.operation (.branch b))).counted (.operation (.branch b))) =
      .ok () t) (hroom : t.main.length + t.alt.length ≤ Stack.maxItems) :
    m.pass s (.operation (.branch b)) = t := by
  have hreadable : (Instruction.operation (.branch b)).Readable := trivial
  have hpass := pass_eq (m := m) hs hreadable trivial hcount
  rw [if_pos (by simp [Instruction.isUnconditional, Operation.isUnconditional])] at hpass
  rw [hpass]
  change settle (m.branch b _) = t
  rw [hbranch, settle_ok hroom]

theorem pass_opener (hs : s.status = .running) (hexecuting : s.isExecuting = true) {top : Bytes}
    {rest : Stack} (hmain : s.main = top :: rest)
    (hroom : s.main.length + s.alt.length ≤ Stack.maxItems)
    (hcount : s.opCount + operations [opener sense] ≤ maxOperations) :
    m.pass s (opener sense) = { s.past [opener sense]
      ((Number.isTrue top == sense) :: s.frames) with main := rest } := by
  have hrest : rest.length + s.alt.length ≤ Stack.maxItems := by
    rw [hmain, List.length_cons] at hroom
    omega
  have hopen : ∀ i : Instruction, openBranch sense ((s.behind i).counted i) =
      .ok () { s.past [i] ((Number.isTrue top == sense) :: s.frames) with main := rest } := by
    intro i
    have hexecuting' : ((s.behind i).counted i).isExecuting = true := hexecuting
    have hmain' : ((s.behind i).counted i).main = top :: rest := hmain
    rw [openBranch_apply, if_pos hexecuting', State.past_singleton, hmain']
    rfl
  refine pass_branch hs hcount ?_ hrest
  cases sense with
  | true => exact hopen _
  | false => exact hopen _

theorem pass_otherwise (hturn : m.rules.turn = Rules.standard.turn) (hs : s.status = .running)
    (hroom : s.main.length + s.alt.length ≤ Stack.maxItems) (houter : outer.all id = true)
    (hframes : s.frames = frame :: outer)
    (hcount : s.opCount + operations [.operation (.branch .otherwise)] ≤ maxOperations) :
    m.pass s (.operation (.branch .otherwise)) =
      s.past [.operation (.branch .otherwise)] ((!frame) :: outer) := by
  refine pass_branch hs hcount ?_ hroom
  rw [State.past_singleton]
  simp only [branch, turnBranch, State.counted, State.behind, hframes, hturn, Rules.standard,
    houter, Bool.true_and]

theorem pass_endIf (hs : s.status = .running)
    (hroom : s.main.length + s.alt.length ≤ Stack.maxItems) (hframes : s.frames = frame :: outer)
    (hcount : s.opCount + operations [.operation (.branch .endIf)] ≤ maxOperations) :
    m.pass s (.operation (.branch .endIf)) = s.past [.operation (.branch .endIf)] outer := by
  refine pass_branch hs hcount ?_ hroom
  rw [State.past_singleton]
  simp only [branch, closeBranch, State.counted, State.behind, hframes]

/-! ### One branch after the other -/

namespace Parallel

variable {inside : List Bool}

/-- When both have failed, nothing more is run on either side. -/
theorem follow_of_halted (h : Parallel inside outer t u) (hhalted : t.status ≠ .running)
    (inside' : List Bool) (left right : List Instruction) :
    Parallel inside' outer (m.follow left t) (m.follow right u) := by
  rw [Machine.follow_of_halted hhalted, Machine.follow_of_halted (h.status_eq ▸ hhalted)]
  exact { h with running := fun hrunning => absurd hrunning hhalted }

/-- A word of the conditional changes nothing but what is open of it. -/
theorem past (h : Parallel inside outer s u) (hs : s.status = .running)
    (program : List Instruction) (inside' : List Bool) :
    Parallel inside' outer (s.past program (inside' ++ outer)) u where
  main_eq := h.main_eq
  alt_eq := h.alt_eq
  status_eq := h.status_eq
  running _ :=
    ⟨rfl, (h.running hs).2.1, Nat.le_trans (h.running hs).2.2 (Nat.le_add_right _ _)⟩
  halted hhalted := absurd hs hhalted

/-- **A branch is run through on the left, and on the right only if it is executed.** -/
theorem branch (hturn : m.rules.turn = Rules.standard.turn) (h : Parallel [frame] outer s u)
    (hs : s.status = .running) (hblock : IsBlock block)
    (hroom : s.main.length + s.alt.length ≤ Stack.maxItems)
    (hcount : s.opCount + operations block ≤ maxOperations) :
    Parallel [frame] outer (m.follow block s) (m.follow (if frame then block else []) u) := by
  obtain ⟨hleft, hright, hle⟩ := h.running hs
  cases frame with
  | false =>
    have hexecuting : s.isExecuting = false := by
      rw [State.isExecuting, hleft]
      rfl
    rw [follow_of_not_executing hturn hblock hs hexecuting hroom hcount, hleft]
    exact h.past hs block [false]
  | true =>
    have hmirrors : Mirrors outer [] s u := ⟨h.main_eq, h.alt_eq, h.status_eq, hleft, hright⟩
    have hu : u.status = .running := h.status_eq.trans hs
    obtain ⟨inner, hafter, hlen⟩ := hmirrors.follow (m := m) hturn hs hblock.readable
      hblock.permitted hcount (by omega) hblock.balanced
    have hstatus := status_follow (m := m) hblock.readable hs
    refine ⟨hafter.main_eq, hafter.alt_eq, hafter.status_eq, fun hrunning => ?_, fun hhalted =>
      ⟨hstatus.resolve_left hhalted, inner, hafter.frames_left, hafter.frames_right⟩⟩
    obtain rfl := List.length_eq_zero_iff.1 (hlen hrunning)
    refine ⟨hafter.frames_left, hafter.frames_right, ?_⟩
    have hops := (follow_pc_opCount hblock.readable hrunning).2
    have hops' := (follow_pc_opCount hblock.readable (hafter.status_eq.trans hrunning)).2
    rw [if_pos rfl, hops, hops']
    omega

/-- **The branches of a conditional**, from behind the word that opened it or turned it last. -/
theorem branches (hturn : m.rules.turn = Rules.standard.turn) (houter : outer.all id = true)
    (h : Parallel [frame] outer s u) (hs : s.status = .running)
    (hblocks : ∀ block ∈ blocks, IsBlock block)
    (hroom : s.main.length + s.alt.length ≤ Stack.maxItems)
    (hcount : s.opCount + operations (conditionalBody blocks) ≤ maxOperations) :
    Parallel [] outer (m.follow (conditionalBody blocks) s)
      (m.follow (selected frame blocks) u) := by
  -- every word that turns the conditional exchanges what is executed and what is passed over
  induction blocks generalizing s u frame with
  | nil =>
    rw [conditionalBody_nil, selected_nil, follow_cons, follow_nil, follow_nil,
      pass_endIf hs hroom (h.running hs).1 hcount]
    exact h.past hs _ []
  | cons block blocks ih =>
    obtain ⟨hblock, hblocks⟩ := List.forall_mem_cons.1 hblocks
    -- what is known behind the first branch, if it does not fail
    have hbehind : (m.follow block s).status = .running →
        (m.follow block s).opCount = s.opCount + operations block ∧
          (m.follow block s).main.length + (m.follow block s).alt.length ≤ Stack.maxItems :=
      fun hrunning => ⟨(follow_pc_opCount hblock.readable hrunning).2,
        length_follow_le hroom hrunning⟩
    rw [selected_cons]
    cases blocks with
    | nil =>
      rw [conditionalBody_singleton, Instruction.operations_append] at hcount
      rw [conditionalBody_singleton, follow_append, follow_append, selected_nil]
      have hbranch := h.branch hturn hs hblock hroom (by omega)
      by_cases hrunning : (m.follow block s).status = .running
      · obtain ⟨hops, hroom'⟩ := hbehind hrunning
        rw [follow_cons, follow_nil, follow_nil,
          pass_endIf hrunning hroom' (hbranch.running hrunning).1 (by omega)]
        exact hbranch.past hrunning _ []
      · exact hbranch.follow_of_halted hrunning _ _ _
    | cons next blocks =>
      rw [conditionalBody_cons, Instruction.operations_append, Instruction.operations_cons]
        at hcount
      rw [conditionalBody_cons, follow_append, follow_append]
      have hbranch := h.branch hturn hs hblock hroom (by omega)
      by_cases hrunning : (m.follow block s).status = .running
      · obtain ⟨hops, hroom'⟩ := hbehind hrunning
        rw [follow_cons, pass_otherwise hturn hrunning hroom' houter
          (hbranch.running hrunning).1 (by omega)]
        refine ih (hbranch.past hrunning _ [!frame]) hrunning hblocks hroom' ?_
        simp only [State.past]
        omega
      · exact hbranch.follow_of_halted hrunning _ _ _

end Parallel

/-! ### Running through a conditional -/

theorem parallel_conditional (hturn : m.rules.turn = Rules.standard.turn) (hs : s.status = .running)
    (hexecuting : s.isExecuting = true) {top : Bytes} {rest : Stack} (hmain : s.main = top :: rest)
    (hroom : s.main.length + s.alt.length ≤ Stack.maxItems) (sense : Bool)
    (hblocks : ∀ block ∈ blocks, IsBlock block)
    (hcount : s.opCount + operations (conditional sense blocks) ≤ maxOperations) (pc : Nat) :
    Parallel [] s.frames (m.follow (conditional sense blocks) s)
      (m.follow (selected (Number.isTrue top == sense) blocks) { s with pc, main := rest }) := by
  unfold conditional at hcount ⊢
  rw [Instruction.operations_cons] at hcount
  rw [follow_cons, pass_opener hs hexecuting hmain hroom (by omega)]
  have hrest : rest.length + s.alt.length ≤ Stack.maxItems := by
    rw [hmain, List.length_cons] at hroom
    omega
  have hopened : Parallel [Number.isTrue top == sense] s.frames
      { s.past [opener sense] ((Number.isTrue top == sense) :: s.frames) with main := rest }
      { s with pc, main := rest } :=
    ⟨rfl, rfl, rfl, fun _ => ⟨rfl, rfl, Nat.le_add_right _ _⟩, fun hhalted => absurd hs hhalted⟩
  refine hopened.branches hturn hexecuting hs hblocks hrest ?_
  simp only [State.past]
  omega

/-- **Selection of branches.**  A machine runs through a conditional as it runs through its selected
branches alone, without the item that the conditional takes: the stacks agree, the first fault in a
selected branch is that of the whole, and otherwise the machine goes on behind the conditional with
what was open before.  Blocks that are passed over change nothing but the counter and the number of
operations.  There is room in every state of a machine that runs, as it is checked behind every
instruction. -/
theorem next_conditional {primitives : Primitives} {digest : Digest} {code : Bytes}
    (hload : Machine.load primitives digest code = .ok m) (hs : s.status = .running)
    (hexecuting : s.isExecuting = true) {top : Bytes} {rest : Stack} (hmain : s.main = top :: rest)
    (hroom : s.main.length + s.alt.length ≤ Stack.maxItems) (sense : Bool)
    (hblocks : ∀ block ∈ blocks, IsBlock block)
    (hcode : codeOf (conditional sense blocks) <+: m.code.drop s.pc)
    (hcount : s.opCount + operations (conditional sense blocks) ≤ maxOperations) :
    (∃ m' t u, Machine.load primitives digest
        (codeOf (selected (Number.isTrue top == sense) blocks)) = .ok m' ∧
      m.next^[(conditional sense blocks).length] s = t ∧
      m'.next^[(selected (Number.isTrue top == sense) blocks).length]
        { s with pc := 0, main := rest } = u ∧
      Parallel [] s.frames t u ∧
      (t.status = .running → t.pc = s.pc + (codeOf (conditional sense blocks)).length ∧
        t.opCount = s.opCount + operations (conditional sense blocks))) ∧
    ∀ (block : List Instruction) (v : State), IsBlock block → v.status = .running →
      v.isExecuting = false → v.main.length + v.alt.length ≤ Stack.maxItems →
      v.opCount + operations block ≤ maxOperations → codeOf block <+: m.code.drop v.pc →
      m.next^[block.length] v = { v with
        pc := v.pc + (codeOf block).length, opCount := v.opCount + operations block } := by
  have hturn : m.rules.turn = Rules.standard.turn := by rw [(of_load hload).2.2.2]
  refine ⟨?_, fun block v hblock hv hskipped hroom hcount hcode => ?_⟩
  · have hreadable : ∀ i ∈ conditional sense blocks, i.Readable :=
      List.forall_mem_cons.2 ⟨trivial,
        forall_mem_conditionalBody (fun b hb => (hblocks b hb).readable) fun _ => trivial⟩
    -- the selected branches are part of the conditional, so they are no longer
    have hsublist := (selected_sublist (Number.isTrue top == sense) blocks).trans
      (List.sublist_cons_self (opener sense) _)
    have hlen : (codeOf (selected (Number.isTrue top == sense) blocks)).length ≤ maxCodeSize := by
      have hchosen := (hsublist.flatMap Instruction.bytes).length_le
      have hwhole := hcode.length_le
      have hsize := m.length_code
      rw [List.length_drop] at hwhole
      exact Nat.le_trans hchosen (Nat.le_trans hwhole (Nat.le_trans (Nat.sub_le _ _) hsize))
    have hleft := iterate_next_eq_follow hreadable hcode
    obtain ⟨m', hload', hcode', hfollow⟩ := exists_load_follow hload hlen
    have hright := iterate_next_eq_follow (m := m') (s := { s with pc := 0, main := rest })
      (fun i hi => hreadable i (hsublist.subset hi)) (by rw [hcode']; exact List.prefix_refl _)
    rw [hfollow] at hright
    exact ⟨m', _, _, hload', hleft, hright,
      parallel_conditional hturn hs hexecuting hmain hroom sense hblocks hcount 0,
      follow_pc_opCount hreadable⟩
  · rw [iterate_next_eq_follow hblock.readable hcode,
      follow_of_not_executing hturn hblock hv hskipped hroom hcount]
    rfl

/-- On a false item, a first branch that gives up is passed over, and the second one is run. -/
theorem next_conditional_passedOver :
    ∃ m m' t u, Machine.load .standard .zero [0x63, 0x6a, 0x67, 0x61, 0x68] = .ok m ∧
      Machine.load .standard .zero [0x61] = .ok m' ∧ m.next^[5] { main := [[]] } = t ∧
      m'.next^[1] {} = u ∧ Parallel [] [] t u ∧ t.pc = 5 ∧ t.opCount = 5 := by
  have hgiveUp : IsBlock [.operation .giveUp] :=
    ⟨by simp [Instruction.Readable], by simp [Instruction.Permitted], rfl⟩
  have hnop : IsBlock [.operation (.nop .plain)] :=
    ⟨by simp [Instruction.Readable], by simp [Instruction.Permitted], rfl⟩
  have hblocks : ∀ block ∈ [[Instruction.operation .giveUp], [.operation (.nop .plain)]],
      IsBlock block :=
    List.forall_mem_cons.2 ⟨hgiveUp, List.forall_mem_cons.2 ⟨hnop, by simp⟩⟩
  have hload : Machine.load .standard .zero [0x63, 0x6a, 0x67, 0x61, 0x68] = .ok _ :=
    load_eq (by decide)
  obtain ⟨⟨m', t, u, hload', ht, hu, hparallel, hrunning⟩, -⟩ :=
    next_conditional (s := { main := [[]] }) hload rfl rfl rfl (by decide) true hblocks
      (List.prefix_refl _) (by decide)
  have hgoes : t.status = .running := by
    rw [← ht]
    rfl
  exact ⟨_, m', t, u, hload, hload', ht, hu, hparallel, hrunning hgoes⟩

end Machine

end SpendScript
