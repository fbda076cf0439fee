import SpendScript.Proofs.Machine.Capacity
import SpendScript.Proofs.Machine.Extension
import SpendScript.Proofs.Machine.WellFormed

/-!
# Code above other items

An operation that succeeds on some items does the same with more items below them, as long as there
is room, unless it counts the items (`Stack.Framed`).  So code that runs to its end by itself runs
to its end above the items that other code has pushed, and leaves these where they were.

* `Stack.hereditary_framed` : what operations look at are the items that they find;
* `Machine.Raised.step` : a step above other items;
* `Machine.framed_of_load` : a run above other items.
-/

namespace SpendScript

open Effect (onMain)
open Instruction (decode? codeOf operations)

/-! ### Actions on a stack -/

namespace Stack

variable {s t below : Stack}

/-- The action does the same with more items below those that it finds. -/
def Framed {α : Type} (action : Action α) : Prop :=
  ∀ s a t below, action s = .ok a t → action (s ++ below) = .ok a (t ++ below)

theorem getElem?_append_of_some {depth : Nat} {item : Bytes} (h : s[depth]? = some item)
    (below : Stack) : depth < s.length ∧ (s ++ below)[depth]? = some item := by
  have hdepth := (List.getElem?_eq_some_iff.1 h).1
  exact ⟨hdepth, by rw [List.getElem?_append_left hdepth, h]⟩

theorem insertIdx_append {depth : Nat} {item : Bytes} (h : depth ≤ s.length) :
    (s ++ below).insertIdx depth item = s.insertIdx depth item ++ below := by
  induction s generalizing depth with
  | nil =>
    obtain rfl := Nat.le_zero.1 h
    rfl
  | cons top s ih =>
    cases depth with
    | zero => rfl
    | succ depth =>
      rw [List.cons_append, List.insertIdx_succ_cons, List.insertIdx_succ_cons,
        ih (Nat.le_of_succ_le_succ h), List.cons_append]

/-- Without a capacity, it makes no difference where an item is added. -/
theorem objection?_none_congr (item : Bytes) (s t : Stack) :
    objection? none item s = objection? none item t := rfl

theorem framed_require (n : Nat) : Framed (require n) := by
  intro s a t below h
  unfold require at h ⊢
  split at h
  · exact absurd h (by simp)
  · obtain ⟨-, rfl⟩ := EStateM.Result.ok.inj h
    rw [if_neg (by rw [List.length_append]; omega)]

theorem framed_pop : Framed pop := by
  intro s a t below h
  cases s with
  | nil => exact absurd h (by simp [pop])
  | cons item rest =>
    obtain ⟨rfl, rfl⟩ := EStateM.Result.ok.inj h
    rfl

theorem framed_peek (depth : Nat) : Framed (peek depth) := by
  intro s a t below h
  unfold peek at h ⊢
  cases hitem : s[depth]? with
  | none => exact absurd h (by simp [hitem])
  | some item =>
    rw [hitem] at h
    obtain ⟨rfl, rfl⟩ := EStateM.Result.ok.inj h
    rw [(getElem?_append_of_some hitem below).2]

theorem framed_removeAt (depth : Nat) : Framed (removeAt depth) := by
  intro s a t below h
  unfold removeAt at h ⊢
  cases hitem : s[depth]? with
  | none => exact absurd h (by simp [hitem])
  | some item =>
    rw [hitem] at h
    obtain ⟨rfl, rfl⟩ := EStateM.Result.ok.inj h
    obtain ⟨hdepth, hbelow⟩ := getElem?_append_of_some hitem below
    rw [hbelow, List.eraseIdx_append_of_lt_length hdepth]

theorem framed_swap (a b : Nat) : Framed (swap a b) := by
  intro s c t below h
  unfold swap at h ⊢
  cases ha : s[a]? with
  | none => exact absurd h (by simp [ha])
  | some x =>
    cases hb : s[b]? with
    | none => exact absurd h (by simp [ha, hb])
    | some y =>
      simp only [ha, hb] at h
      obtain ⟨-, rfl⟩ := EStateM.Result.ok.inj h
      obtain ⟨hlt, hbelow⟩ := getElem?_append_of_some ha below
      obtain ⟨hlt', hbelow'⟩ := getElem?_append_of_some hb below
      simp only [hbelow, hbelow']
      rw [List.set_append_left _ _ hlt, List.set_append_left _ _ (by rwa [List.length_set])]

theorem framed_push (item : Bytes) : Framed (push none item) := by
  intro s a t below h
  unfold push at h ⊢
  rw [objection?_none_congr item (s ++ below) s]
  cases hobjection : objection? none item s with
  | some fault => exact absurd h (by simp [hobjection])
  | none =>
    rw [hobjection] at h
    obtain ⟨-, rfl⟩ := EStateM.Result.ok.inj h
    rfl

theorem framed_insertAt (depth : Nat) (item : Bytes) : Framed (insertAt none depth item) := by
  intro s a t below h
  unfold insertAt at h ⊢
  split at h
  · exact absurd h (by simp)
  · rename_i hdepth
    simp only [Bool.or_eq_true, decide_eq_true_eq, not_or, Nat.not_lt,
      List.isEmpty_iff] at hdepth
    have hroom : ¬ ((s ++ below).isEmpty || decide ((s ++ below).length < depth)) = true := by
      simp only [Bool.or_eq_true, decide_eq_true_eq, not_or, Nat.not_lt, List.isEmpty_iff,
        List.append_eq_nil_iff, List.length_append]
      exact ⟨fun hnil => hdepth.1 hnil.1, by omega⟩
    rw [if_neg hroom, objection?_none_congr item (s ++ below) s]
    cases hobjection : objection? none item s with
    | some fault => exact absurd h (by simp [hobjection])
    | none =>
      rw [hobjection] at h
      obtain ⟨-, rfl⟩ := EStateM.Result.ok.inj h
      simp only [insertIdx_append hdepth.2]

/-- **Framed actions are made of framed ones**, as long as there is no capacity. -/
theorem hereditary_framed : Hereditary none fun action => Framed action where
  pure a s b t below h := by
    obtain ⟨rfl, rfl⟩ := EStateM.Result.ok.inj h
    rfl
  throw _ s b t below h := absurd h (by simp)
  bind {α β action f} haction hf s b t below h := by
    obtain ⟨a, u, hfirst, hnext⟩ := Effect.bind_eq_ok_iff.1 h
    exact Effect.bind_eq_ok_iff.2
      ⟨a, u ++ below, haction s a u below hfirst, hf a u b t below hnext⟩
  require := framed_require
  pop := framed_pop
  peek := framed_peek
  removeAt := framed_removeAt
  swap := framed_swap
  push := framed_push
  insertAt := framed_insertAt

end Stack

/-! ### Instructions -/

/-- The instruction pushes bytes or a small number. -/
def Instruction.IsPush : Instruction → Prop
  | .push _ _ => True
  | .operation (.constant _) => True
  | _ => False

theorem Instruction.operations_of_isPush {program : List Instruction}
    (hreadable : ∀ i ∈ program, i.Readable) (hpush : ∀ i ∈ program, i.IsPush) :
    operations program = 0 := by
  refine List.countP_eq_zero.2 fun i hi => Bool.eq_false_iff.1 ?_
  have hpush := hpush i hi
  cases i with
  | push form data => exact isCounted_eq_false (hreadable _ hi) rfl
  | unassigned byte => exact hpush.elim
  | operation op =>
    cases op with
    | constant c => exact (pushes_constant c).isCounted_eq
    | _ => exact hpush.elim

namespace Machine

/-- The states of a machine whose code stands `distance` bytes behind the start of other code, and
whose items lie above `below`, and of the machine by itself. -/
structure Raised (below : Stack) (distance : Nat) (s u : State) : Prop where
  /-- The counter is further on. -/
  pc_eq : u.pc = distance + s.pc
  /-- There are other items below. -/
  main_eq : u.main = s.main ++ below
  /-- The alternate stacks are the same. -/
  alt_eq : u.alt = s.alt
  /-- The same conditionals are open. -/
  frames_eq : u.frames = s.frames
  /-- As many operations were met. -/
  opCount_eq : u.opCount = s.opCount
  /-- Both run, or both ended in the same way. -/
  status_eq : u.status = s.status

/-- If the first outcome is a success, then so is the second, further on and above other items. -/
def RaisedResults (below : Stack) (distance : Nat) (r r' : EStateM.Result Fault State Unit) :
    Prop :=
  ∀ t, r = .ok () t → ∃ v, r' = .ok () v ∧ Raised below distance t v

variable {m m' : Machine} {s t u : State} {i : Instruction} {below : Stack} {distance : Nat}
  {first : UInt8} {rest : Bytes}

namespace Raised

variable (h : Raised below distance s u)

include h

theorem isExecuting_eq : u.isExecuting = s.isExecuting := by
  rw [State.isExecuting, State.isExecuting, h.frames_eq]

theorem results : RaisedResults below distance (.ok () s) (.ok () u) := by
  intro t ht
  obtain ⟨-, rfl⟩ := EStateM.Result.ok.inj ht
  exact ⟨u, rfl, h⟩

theorem onMain {action : Stack.Action Unit} (haction : Stack.Framed action) :
    RaisedResults below distance (onMain action s) (onMain action u) := by
  intro t ht
  rw [Effect.onMain_apply] at ht ⊢
  cases hresult : action s.main with
  | error fault main => exact absurd ht (by simp [hresult, Effect.mainResult])
  | ok _ main =>
    rw [hresult] at ht
    obtain ⟨-, rfl⟩ := EStateM.Result.ok.inj ht
    rw [h.main_eq, haction s.main () main below hresult]
    exact ⟨_, rfl, { h with main_eq := rfl }⟩

theorem openBranch (sense : Bool) :
    RaisedResults below distance (openBranch sense s) (openBranch sense u) := by
  rw [openBranch_apply, openBranch_apply, h.isExecuting_eq, h.main_eq]
  split
  · cases hitems : s.main with
    | nil => exact fun t ht => absurd ht (by simp)
    | cons top rest =>
      exact results { h with
        main_eq := rfl
        frames_eq := congrArg ((Number.isTrue top == sense) :: ·) h.frames_eq }
  · exact results { h with
      main_eq := rfl
      frames_eq := congrArg (false :: ·) h.frames_eq }

theorem branch (b : Branch) : RaisedResults below distance (m.branch b s) (m.branch b u) := by
  cases b with
  | ifTrue => exact h.openBranch true
  | ifFalse => exact h.openBranch false
  | otherwise =>
    simp only [Machine.branch, turnBranch, h.frames_eq]
    cases hframes : s.frames with
    | nil => exact fun t ht => absurd ht (by simp)
    | cons frame outer => exact results { h with frames_eq := rfl }
  | endIf =>
    simp only [Machine.branch, closeBranch, h.frames_eq]
    cases hframes : s.frames with
    | nil => exact fun t ht => absurd ht (by simp)
    | cons frame outer => exact results { h with frames_eq := rfl }

theorem transfer (hcapacity : m.rules.capacity = none) (t : Transfer) :
    RaisedResults below distance (m.transfer t s) (m.transfer t u) := by
  cases t with
  | toAlt =>
    rw [toAlt_apply, toAlt_apply, h.main_eq, h.alt_eq]
    cases hitems : s.main with
    | nil => exact fun t ht => absurd ht (by simp)
    | cons item rest =>
      dsimp only [List.cons_append]
      cases Stack.push m.rules.capacity item s.alt with
      | error fault alt => exact fun t ht => absurd ht (by simp)
      | ok _ alt => exact results { h with main_eq := rfl, alt_eq := rfl }
  | fromAlt =>
    rw [fromAlt_apply, fromAlt_apply, h.main_eq, h.alt_eq]
    cases hitems : s.alt with
    | nil => exact fun t ht => absurd ht (by simp)
    | cons item rest =>
      dsimp only
      cases hpush : Stack.push m.rules.capacity item s.main with
      | error fault main => exact fun t ht => absurd ht (by simp)
      | ok _ main =>
        rw [hcapacity] at hpush ⊢
        rw [Stack.framed_push item s.main () main below hpush]
        exact results { h with main_eq := rfl, alt_eq := rfl }

/-- **Carrying out an instruction above other items.** -/
theorem carryOut (hcapacity : m.rules.capacity = none)
    (hi : i ≠ .operation (.shuffle .depth)) :
    RaisedResults below distance (m.carryOut i s) (m.carryOut i u) := by
  cases haction : m.mainAction? i with
  | some action =>
    have hframed : Stack.Hereditary m.rules.capacity fun action => Stack.Framed action := by
      rw [hcapacity]
      exact Stack.hereditary_framed
    rw [carryOut_eq_onMain haction]
    exact h.onMain (hframed.mainAction? haction hi)
  | none =>
    rcases mainAction?_eq_none haction with ⟨b, rfl⟩ | ⟨t, rfl⟩ | rfl
    · exact h.branch b
    · exact h.transfer hcapacity t
    · exact results { h with }

theorem count : RaisedResults below distance (count s) (Machine.count u) := by
  rw [count_apply, count_apply, h.opCount_eq]
  split
  · exact results { h with opCount_eq := rfl }
  · exact fun t ht => absurd ht (by simp)

omit h

theorem results_bind {x y : Effect Unit} {f g : Unit → Effect Unit}
    (hfirst : RaisedResults below distance (x s) (y u))
    (hnext : ∀ t v, Raised below distance t v → RaisedResults below distance (f () t) (g () v)) :
    RaisedResults below distance ((x >>= f) s) ((y >>= g) u) := by
  intro t ht
  obtain ⟨_, w, hx, hw⟩ := Effect.bind_eq_ok_iff.1 ht
  obtain ⟨v, hy, hraised⟩ := hfirst w hx
  obtain ⟨v', hv, hlast⟩ := hnext w v hraised t hw
  exact ⟨v', Effect.bind_eq_ok_iff.2 ⟨(), v, hy, hv⟩, hlast⟩

theorem lifts : Lifts (Raised below distance) (RaisedResults below distance) where
  ok h := h.results
  error _ _ _ ht := absurd ht (by simp)
  isExecuting_eq h := h.isExecuting_eq
  count_bind h hnext := results_bind h.count hnext

/-- **Obeying an instruction above other items**, without a capacity. -/
theorem obey (hcapacity : m.rules.capacity = none) (hi : i ≠ .operation (.shuffle .depth))
    (h : Raised below distance s u) : RaisedResults below distance (m.obey i s) (m.obey i u) :=
  lifts.obey (fun _ _ _ hnext => hnext.carryOut hcapacity hi) h

theorem attempt (hcapacity : m.rules.capacity = none)
    (hi : ∀ i size, Instruction.read first rest = .complete i size →
      i ≠ .operation (.shuffle .depth)) (h : Raised below distance s u) :
    RaisedResults below distance (m.attempt first rest s) (m.attempt first rest u) := by
  unfold Machine.attempt
  cases hread : Instruction.read first rest with
  | truncated size => exact fun t ht => absurd ht (by simp)
  | complete i size =>
    have hraised : Raised below distance { s with pc := s.pc + size }
        { u with pc := u.pc + size } :=
      { h with pc_eq := by simp only [h.pc_eq, Nat.add_assoc] }
    exact obey hcapacity (hi i size hread) hraised

end Raised

/-! ### Steps -/

/-- The machine differs from another one in the code that it holds before the code of that. -/
structure Follows (m' m : Machine) (pre : Bytes) : Prop where
  /-- There is more code before it. -/
  code_eq : m'.code = pre ++ m.code
  /-- Signatures are checked against the same digest. -/
  digest_eq : m'.digest = m.digest
  /-- The cryptographic functions are the same. -/
  primitives_eq : m'.primitives = m.primitives
  /-- The rules are the same. -/
  rules_eq : m'.rules = m.rules

variable {pre : Bytes} {program : List Instruction}

theorem follows_of_load {primitives : Primitives} {digest : Digest} {code : Bytes}
    (hload : Machine.load primitives digest code = .ok m)
    (hload' : Machine.load primitives digest (pre ++ code) = .ok m') : Follows m' m pre := by
  obtain ⟨hcode, hdigest, hprimitives, hrules⟩ := of_load hload
  obtain ⟨hcode', hdigest', hprimitives', hrules'⟩ := of_load hload'
  exact ⟨by rw [hcode, hcode'], hdigest'.trans hdigest.symm, hprimitives'.trans hprimitives.symm,
    hrules'.trans hrules.symm⟩

theorem Follows.attempt_eq (h : Follows m' m pre) (first : UInt8) (rest : Bytes) :
    m'.unlimited.attempt first rest = m.unlimited.attempt first rest := by
  have hobey : m'.unlimited.obey = m.unlimited.obey :=
    obey_congr h.digest_eq h.primitives_eq (by rw [unlimited, unlimited, h.rules_eq])
  funext s
  rw [attempt, attempt, hobey]

theorem stopped_eq_ok {r : EStateM.Result Fault State Unit} (h : stopped r = .ok () t) :
    r = .ok () t := by
  cases r with
  | ok _ u => exact h
  | error fault u => exact absurd h (by simp [stopped])

/-- **A step above other items** does the same, or finds no room. -/
theorem Raised.step (hfollows : Follows m' m pre)
    (hcapacity : m.rules.capacity = some Stack.maxItems) (hs : s.status = .running)
    (hlimits : m.Limits s) (hlimits' : m'.Limits u) (hahead : m.Ahead s (i :: program))
    (hi : i ≠ .operation (.shuffle .depth)) (h : Raised below pre.length s u)
    (hstep : m.step s = .ok () t) :
    (∃ v, m'.step u = .error .stackSize v) ∨
      ∃ v, m'.step u = .ok () v ∧ Raised below pre.length t v := by
  have hcapacity' : m'.rules.capacity = some Stack.maxItems := by rw [hfollows.rules_eq, hcapacity]
  have hu : u.status = .running := h.status_eq.trans hs
  have hlt := hahead.pc_lt
  have hcode := List.drop_eq_getElem_cons hlt
  have hcode' : m'.code.drop u.pc = m.code[s.pc] :: m.code.drop (s.pc + 1) := by
    rw [hfollows.code_eq, h.pc_eq, List.drop_length_add_append, hcode]
  obtain ⟨-, hsame⟩ := step_unlimited hcapacity hs (hlimits.sound hs).main
    (hlimits.length_le_of_running hs) hcode
  obtain ⟨-, hsame'⟩ := step_unlimited hcapacity' hu (hlimits'.sound hu).main
    (hlimits'.length_le_of_running hu) hcode'
  -- without capacities, the step by itself is the instruction, which can be done above other items
  have hattempt := stopped_eq_ok ((hsame (by simp [hstep])).symm.trans hstep)
  have hnot : ∀ j size, Instruction.read (m.code[s.pc]) (m.code.drop (s.pc + 1)) =
      .complete j size → j ≠ .operation (.shuffle .depth) := by
    intro j size hread
    obtain ⟨hj, -, hprefix⟩ := Instruction.read_eq_complete_iff.1 hread
    rw [(show m.Reads s j from ⟨hj, hcode ▸ hprefix⟩).unique hahead.reads]
    exact hi
  obtain ⟨v, hattempt', hraised⟩ := h.attempt (m := m.unlimited) rfl hnot t hattempt
  by_cases hfull : ∃ v, m'.step u = .error .stackSize v
  · exact .inl hfull
  · have hstep' := hsame' (not_exists.1 hfull)
    rw [hfollows.attempt_eq, hattempt'] at hstep'
    exact .inr ⟨v, hstep', hraised⟩

/-! ### Runs -/

/-- **As many steps as there are instructions, above other items**, unless one of them finds no
room. -/
theorem Raised.iterate (hfollows : Follows m' m pre)
    (hcapacity : m.rules.capacity = some Stack.maxItems) (hlimits' : m'.Limits u)
    (hahead : m.Ahead {} program) (hdepth : .operation (.shuffle .depth) ∉ program)
    (h : Raised below pre.length {} u) {k : Nat} (hk : k ≤ program.length)
    (hrunning : (m.next^[k] {}).status = .running) :
    (∃ j v, m'.step (m'.next^[j] u) = .error .stackSize v) ∨
      Raised below pre.length (m.next^[k] {}) (m'.next^[k] u) := by
  have hcapacity' : m'.rules.capacity = some Stack.maxItems := by rw [hfollows.rules_eq, hcapacity]
  induction k with
  | zero => exact .inr h
  | succ k ih =>
    have hbefore := status_of_iterate_next (Nat.le_succ k) hrunning
    rcases ih (Nat.le_of_lt hk) hbefore with hfull | hraised
    · exact .inl hfull
    have hrest := hahead.iterate_next hcapacity regular_start (Nat.le_of_lt hk) hbefore
    rw [List.drop_eq_getElem_cons hk] at hrest
    have hi : program[k] ≠ .operation (.shuffle .depth) := fun hi =>
      hdepth (hi ▸ List.getElem_mem hk)
    rw [Function.iterate_succ_apply'] at hrunning
    cases hstep : m.step (m.next^[k] {}) with
    | error fault t =>
      rw [next_of_step_error hstep, status_of_step_error hstep] at hrunning
      exact absurd hrunning (by simp)
    | ok _ t =>
      rcases hraised.step hfollows hcapacity hbefore
        ((invariant_limits hcapacity).iterate k (limits_start m))
        ((invariant_limits hcapacity').iterate k hlimits') hrest hi hstep with ⟨v, hfull⟩ | hgoes
      · exact .inl ⟨k, v, hfull⟩
      · obtain ⟨v, hstep', hnext⟩ := hgoes
        rw [Function.iterate_succ_apply', Function.iterate_succ_apply', next_of_step_ok hstep,
          next_of_step_ok hstep']
        exact .inr hnext

theorem end_of_execute_ok (hcapacity : m.rules.capacity = some Stack.maxItems) {b : Bool}
    {last : State} (h : m.execute {} = (.ok b, last)) :
    ∃ program, decode? m.code = some program ∧
      (m.next^[program.length] {}).status = .running ∧
      (m.next^[program.length] {}).pc = m.code.length ∧
      (m.next^[program.length] {}).frames = [] ∧
      last = { m.next^[program.length] {} with status := .succeeded } := by
  have hbounded := Stack.bounded_nil
  obtain ⟨program, hdecode, -⟩ := (execute_tells hcapacity ⟨hbounded, hbounded, Nat.zero_le _⟩
    (tells_start hbounded hbounded)).1 ⟨b, by rw [h]⟩
  have hahead := ahead_start hdecode
  rcases fails_or_ends hcapacity regular_start rfl with
    ⟨k, fault, t, -, -, hstep⟩ | ⟨k, hrunning, hend⟩
  · rw [execute_of_step_error hcapacity regular_start hstep] at h
    exact absurd h (by simp)
  · obtain rfl := hahead.eq_length hcapacity regular_start hrunning hend
    have hlast := hahead.iterate_next hcapacity regular_start (Nat.le_refl _) hrunning
    rw [List.drop_length] at hlast
    rw [execute_at_end hcapacity regular_start hrunning hend] at h
    split at h
    · exact ⟨program, hdecode, hrunning, hlast.pc_eq, ‹_›, (Prod.mk.inj h).2.symm⟩
    · exact absurd h (by simp)

/-- **A run above other items**, unless a step of it finds no room. -/
theorem Raised.execute (hfollows : Follows m' m pre)
    (hcapacity : m.rules.capacity = some Stack.maxItems) (hlimits' : m'.Limits u)
    (hregular : u.Regular) (h : Raised below pre.length {} u)
    (hdepth : ∀ program, decode? m.code = some program →
      .operation (.shuffle .depth) ∉ program)
    {b : Bool} {last : State} (hrun : m.execute {} = (.ok b, last)) :
    (∃ t, m'.execute u = (.error .stackSize, t)) ∨
      ∃ d t, m'.execute u = (.ok d, t) ∧ t.main = last.main ++ below ∧ t.alt = last.alt ∧
        t.opCount = last.opCount := by
  have hcapacity' : m'.rules.capacity = some Stack.maxItems := by rw [hfollows.rules_eq, hcapacity]
  obtain ⟨program, hdecode, hrunning, hpc, hframes, rfl⟩ := end_of_execute_ok hcapacity hrun
  rcases h.iterate hfollows hcapacity hlimits' (ahead_start hdecode) (hdepth program hdecode)
    (Nat.le_refl _) hrunning with ⟨j, v, hfull⟩ | hraised
  · exact .inl ⟨v, execute_of_step_error hcapacity' hregular hfull⟩
  · have hend : m'.code.length ≤ (m'.next^[program.length] u).pc := by
      rw [hraised.pc_eq, hpc, hfollows.code_eq, List.length_append]
    have hexecute := execute_at_end hcapacity' hregular (hraised.status_eq.trans hrunning) hend
    rw [if_pos (hraised.frames_eq.trans hframes)] at hexecute
    exact .inr ⟨_, _, hexecute, hraised.main_eq, hraised.alt_eq, hraised.opCount_eq⟩

/-- **Pushes** that run to their end leave a machine as if it started anew above their items. -/
theorem raised_of_pushes (hcapacity : m.rules.capacity = some Stack.maxItems)
    (hdecode : decode? m.code = some program) (hpush : ∀ i ∈ program, i.IsPush) {b : Bool}
    {last : State} (h : m.execute {} = (.ok b, last)) :
    Raised last.main m.code.length {} (m.next^[program.length] {}) := by
  obtain ⟨_, hdecode', hrunning, hpc, hframes, rfl⟩ := end_of_execute_ok hcapacity h
  obtain rfl := Option.some.inj (hdecode.symm.trans hdecode')
  have hbounded := Stack.bounded_nil
  obtain ⟨-, met, hmet⟩ := ((invariant_tells hcapacity).iterate program.length
    (tells_start hbounded hbounded)).running hrunning
  obtain rfl := Option.some.inj ((hmet.decode?_code (Nat.le_of_eq hpc.symm)).symm.trans hdecode)
  have hcount : (m.next^[met.length] {}).opCount = 0 :=
    hmet.opCount_eq.trans (Instruction.operations_of_isPush hmet.readable hpush)
  have hlimits := (invariant_limits hcapacity).iterate met.length (limits_start m)
  have hlength := hlimits.length_alt_le
  rw [hcount] at hlength
  have halt := List.length_eq_zero_iff.1 (Nat.le_zero.1 hlength)
  exact ⟨hpc, rfl, halt, hframes, hcount, hrunning⟩

/-- **A frame for runs.**  Code that does not count the items and runs to its end by itself either
finds no room above the items of some pushes, or runs to its end there, leaves these items below its
own, and has the same alternate stack and has met as many operations as by itself. -/
theorem framed_of_load {primitives : Primitives} {digest : Digest} {code : Bytes} {p : Machine}
    (hload : Machine.load primitives digest code = .ok m)
    (hdepth : ∀ program, decode? code = some program → .operation (.shuffle .depth) ∉ program)
    {b : Bool} {last : State} (hrun : m.execute {} = (.ok b, last))
    (hload_pre : Machine.load primitives digest pre = .ok p)
    {pushes : List Instruction} (hdecode : decode? pre = some pushes)
    (hpush : ∀ i ∈ pushes, i.IsPush) {c : Bool} {below : State}
    (hrun_pre : p.execute {} = (.ok c, below))
    (hload' : Machine.load primitives digest (pre ++ code) = .ok m') :
    (∃ t, m'.execute {} = (.error .stackSize, t)) ∨
      ∃ d t, m'.execute {} = (.ok d, t) ∧ t.main = last.main ++ below.main ∧ t.alt = last.alt ∧
        t.opCount = last.opCount := by
  have hcapacity_pre := capacity_of_load hload_pre
  have hcapacity' := capacity_of_load hload'
  have hcode_pre := (of_load hload_pre).1
  have hextends := extends_of_load hload_pre hload'
  rw [← hcode_pre] at hdecode
  rw [← (of_load hload).1] at hdepth
  -- the pushes leave the items, and the code begins above them
  have hstart : Raised below.main pre.length {} (m'.next^[pushes.length] {}) := by
    rw [hextends.iterate_next hcapacity_pre regular_start (ahead_start hdecode) (Nat.le_refl _),
      ← hcode_pre]
    exact raised_of_pushes hcapacity_pre hdecode hpush hrun_pre
  rw [← execute_iterate hcapacity' regular_start pushes.length]
  exact hstart.execute (follows_of_load hload hload') (capacity_of_load hload)
    ((invariant_limits hcapacity').iterate pushes.length (limits_start m'))
    ((invariant_regular hcapacity').iterate pushes.length regular_start) hdepth hrun

/-- An item is picked from above two others, which stay where they are. -/
theorem framed_of_load_pick :
    ∃ m m' p d t, Machine.load .standard .zero [0x53, 0x54, 0x51, 0x79] = .ok m ∧
      Machine.load .standard .zero [0x55, 0x56] = .ok p ∧
      Machine.load .standard .zero ([0x55, 0x56] ++ [0x53, 0x54, 0x51, 0x79]) = .ok m' ∧
      m'.execute {} = (.ok d, t) ∧ t.main = [[0x03], [0x04], [0x03]] ++ [[0x06], [0x05]] := by
  obtain ⟨m, hload, hrun⟩ : ∃ m, Machine.load .standard .zero [0x53, 0x54, 0x51, 0x79] = .ok m ∧
      m.execute {} = (.ok true, {
        pc := 4, main := [[0x03], [0x04], [0x03]], opCount := 1, status := .succeeded }) :=
    ⟨_, load_eq (by decide), by decide +kernel⟩
  obtain ⟨p, hload_pre, hrun_pre⟩ : ∃ p, Machine.load .standard .zero [0x55, 0x56] = .ok p ∧
      p.execute {} = (.ok true, {
        pc := 2, main := [[0x06], [0x05]], status := .succeeded }) :=
    ⟨_, load_eq (by decide), by decide +kernel⟩
  obtain ⟨m', hload', hroom⟩ : ∃ m',
      Machine.load .standard .zero ([0x55, 0x56] ++ [0x53, 0x54, 0x51, 0x79]) = .ok m' ∧
        (m'.execute {}).1 ≠ .error .stackSize :=
    ⟨_, load_eq (by decide), by decide +kernel⟩
  have hdecode : decode? [0x53, 0x54, 0x51, 0x79] =
      some [.operation (.constant (.small 2)), .operation (.constant (.small 3)),
        .operation (.constant (.small 0)), .operation (.shuffle .pick)] :=
    Instruction.decode?_eq_some_iff.2 ⟨by simp [Instruction.Readable], rfl⟩
  have hdecode_pre : decode? [0x55, 0x56] =
      some [.operation (.constant (.small 4)), .operation (.constant (.small 5))] :=
    Instruction.decode?_eq_some_iff.2 ⟨by simp [Instruction.Readable], rfl⟩
  have hdepth : ∀ program, decode? [0x53, 0x54, 0x51, 0x79] = some program →
      .operation (.shuffle .depth) ∉ program := by
    intro program hprogram
    obtain rfl := Option.some.inj (hdecode.symm.trans hprogram)
    decide
  rcases framed_of_load hload hdepth hrun hload_pre hdecode_pre (by simp [Instruction.IsPush])
    hrun_pre hload' with ⟨t, hfull⟩ | ⟨d, t, hok, hmain, -⟩
  · exact absurd (congrArg Prod.fst hfull) hroom
  · exact ⟨m, m', p, d, t, hload, hload_pre, hload', hok, hmain⟩

end Machine

end SpendScript
