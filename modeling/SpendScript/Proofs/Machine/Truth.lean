import SpendScript.Proofs.Machine.Arithmetic
import SpendScript.Proofs.Machine.Limits
import SpendScript.Proofs.Number.Truth

/-!
# Truth on the stack

Conditionals and the words that check the top item read it as a truth value, and so does the answer
of a run; the words for "not" and "not zero" read it as a number.  On an operand all of them go by
the same truth (`Machine.Judges`), and the words for equal bytes and for equal numbers do the same
with two operands.

* `Machine.judges` : what a machine makes of the top item;
* `Machine.step_equal_eq_step_numEqual` : equal bytes and equal numbers;
* `Machine.truth_agrees` : all this in states that a machine comes to, and what the truth of an item
  has to do with the number that it spells.
-/

namespace SpendScript

open Instruction (operations)
open Number (IsOperand Spells decode? encode isTrue ofBool value)

/-- The machine carries out the next word, whatever that is. -/
structure State.IsReady (s : State) : Prop where
  /-- It runs. -/
  running : s.status = .running
  /-- It is in no branch that is passed over. -/
  executing : s.isExecuting = true
  /-- There is an operation left. -/
  opCount_lt : s.opCount < maxOperations

/-- The state behind a word that left this main stack. -/
def State.done (s : State) (main : Stack) : State :=
  { s with pc := s.pc + 1, opCount := s.opCount + 1, main }

/-- The words that judge the top item. -/
def Operation.judging : List Operation :=
  [.branch .ifTrue, .branch .ifFalse, .verify, .shuffle .ifDup, .unary .not, .unary .notZero]

namespace Machine

variable (m : Machine)

/-- The machine takes the top item as true or false. -/
structure Judges (s : State) (top : Bytes) (rest : Stack) (truth : Bool) : Prop where
  /-- The verdict is what the item is taken as. -/
  verdict_eq : s.verdict = truth
  /-- So is the answer, if the run has ended or the code ends here. -/
  execute_eq : s.status = .succeeded ∨
      s.status = .running ∧ m.code.length ≤ s.pc ∧ s.frames = [] →
    (m.execute s).1 = .ok truth
  /-- The branch behind "if" is executed if the item is true. -/
  ifTrue : s.IsReady → m.code[s.pc]? = some 0x63 →
    m.step s = .ok () { s.done rest with frames := truth :: s.frames }
  /-- The branch behind "not if" is executed if it is false. -/
  ifFalse : s.IsReady → m.code[s.pc]? = some 0x64 →
    m.step s = .ok () { s.done rest with frames := (!truth) :: s.frames }
  /-- A true item is verified. -/
  verify_of_true : s.IsReady → m.code[s.pc]? = some 0x69 → truth = true →
    m.step s = .ok () (s.done rest)
  /-- A false one is not. -/
  verify_of_false : s.IsReady → m.code[s.pc]? = some 0x69 → truth = false →
    m.step s = .error .verify { s.done rest with status := .failed .verify }
  /-- A true item is copied, if there is room. -/
  ifDup_of_true : s.IsReady → m.code[s.pc]? = some 0x73 → truth = true →
    s.main.length + s.alt.length < 1000 → m.step s = .ok () (s.done (top :: top :: rest))
  /-- If there is none, it cannot be copied. -/
  ifDup_of_full : s.IsReady → m.code[s.pc]? = some 0x73 → truth = true →
    1000 ≤ s.main.length + s.alt.length → ∃ t, m.step s = .error .stackSize t
  /-- A false item is not copied. -/
  ifDup_of_false : s.IsReady → m.code[s.pc]? = some 0x73 → truth = false →
    m.step s = .ok () (s.done (top :: rest))
  /-- "Not zero" replaces the item by what it is taken as. -/
  notZero : s.IsReady → m.code[s.pc]? = some 0x92 → m.step s = .ok () (s.done (ofBool truth :: rest))
  /-- "Not" replaces it by the opposite. -/
  not : s.IsReady → m.code[s.pc]? = some 0x91 → m.step s = .ok () (s.done (ofBool (!truth) :: rest))
  /-- Where the next word is not carried out, none of these looks at the item. -/
  unread : ¬ s.IsReady → ∀ op ∈ Operation.judging, m.code[s.pc]? = some op.toByte →
    (m.next s).main = s.main

variable {m} {s : State} {top : Bytes} {rest : Stack} {op : Operation}

/-! ### Words that are carried out -/

section Ready

variable (op) (hready : s.IsReady) (hbyte : m.code[s.pc]? = some op.toByte)
  (hone : operations [.operation op] = 1)

include hready hbyte hone

theorem step_of_ready_ok {action : Stack.Action Unit} {main : Stack}
    (haction : m.mainAction? (.operation op) = some action)
    (hrun : action s.main = .ok () main) (hroom : main.length + s.alt.length ≤ Stack.maxItems) :
    m.step s = .ok () (s.done main) := by
  rw [step_of_mainAction?_ok haction hready.running (reads_of_getElem? hbyte) trivial
    hready.executing (fun _ => hready.opCount_lt) hrun hroom, hone]
  rfl

theorem step_of_ready_error {action : Stack.Action Unit} {main : Stack} {fault : Fault}
    (haction : m.mainAction? (.operation op) = some action)
    (hrun : action s.main = .error fault main) :
    m.step s = .error fault { s.done main with status := .failed fault } := by
  rw [step_of_mainAction?_error haction hready.running (reads_of_getElem? hbyte) trivial
    hready.executing (fun _ => hready.opCount_lt) hrun, hone]
  rfl

theorem step_of_ready_crowded {action : Stack.Action Unit} {main : Stack}
    (haction : m.mainAction? (.operation op) = some action)
    (hrun : action s.main = .ok () main) (hcrowded : Stack.maxItems < main.length + s.alt.length) :
    m.step s = .error .stackSize { s.done main with status := .failed .stackSize } := by
  have hreads : m.Reads s (.operation op) := reads_of_getElem? hbyte
  have hobey := obey_of_mainAction? haction hreads.1 trivial hready.executing
    fun _ => hready.opCount_lt
  rw [hrun] at hobey
  rw [step_of_reads_crowded hready.running hreads hobey hcrowded]
  simp only [State.counted, hone]
  rfl

end Ready

theorem step_of_ready_opener {sense : Bool} {b : Branch} (hready : s.IsReady)
    (hb : m.branch b = openBranch sense) (hmain : s.main = top :: rest)
    (hbyte : m.code[s.pc]? = some (Operation.branch b).toByte)
    (hroom : s.main.length + s.alt.length ≤ Stack.maxItems) :
    m.step s = .ok () { s.done rest with frames := (isTrue top == sense) :: s.frames } := by
  have hreads := reads_of_getElem? (s := s) hbyte
  have hone := operations_branch b
  have hexecuting : ((s.behind (.operation (.branch b))).counted
      (.operation (.branch b))).isExecuting = true := hready.executing
  have hmain' : ((s.behind (.operation (.branch b))).counted
      (.operation (.branch b))).main = top :: rest := hmain
  have hobey := obey_eq (m := m) (s := s.behind (.operation (.branch b))) hreads.1 trivial
    fun _ => hready.opCount_lt
  have hcarried : (Instruction.operation (.branch b)).isUnconditional = true := rfl
  rw [hcarried, Bool.true_or, if_pos rfl, carryOut, perform, hb, openBranch_apply,
    if_pos hexecuting, hmain'] at hobey
  have hlen : rest.length + s.alt.length ≤ Stack.maxItems := by
    rw [hmain, List.length_cons] at hroom
    omega
  rw [step_of_reads_ok hready.running hreads hobey hlen, State.counted, hone]
  rfl

/-! ### Words that are not carried out -/

theorem main_settle {main : Stack} {r : EStateM.Result Fault State Unit}
    (h : Leaves (fun t => t.main = main) r) : (settle r).main = main := by
  cases r with
  | error fault t => exact h
  | ok _ t =>
    unfold settle
    dsimp only
    split <;> exact h

theorem openBranch_of_not_executing {sense : Bool} (hs : s.isExecuting = false) :
    openBranch sense s = .ok () { s with frames := false :: s.frames } := by
  rw [openBranch_apply, if_neg (by simp [hs])]

theorem cases_of_judging (m : Machine) (hop : op ∈ Operation.judging) :
    (Instruction.operation op).isUnconditional = false ∨
      (Instruction.operation op).isUnconditional = true ∧
        ∃ sense, m.carryOut (.operation op) = openBranch sense := by
  simp only [Operation.judging, List.mem_cons, List.not_mem_nil, or_false] at hop
  rcases hop with rfl | rfl | rfl | rfl | rfl | rfl
  · exact .inr ⟨rfl, true, rfl⟩
  · exact .inr ⟨rfl, false, rfl⟩
  · exact .inl rfl
  · exact .inl rfl
  · exact .inl rfl
  · exact .inl rfl

theorem main_next_of_not_isReady (hready : ¬ s.IsReady) (hop : op ∈ Operation.judging)
    (hbyte : m.code[s.pc]? = some op.toByte) : (m.next s).main = s.main := by
  by_cases hs : s.status = .running
  · have hreads := reads_of_getElem? (s := s) hbyte
    have hcounted : ∀ op ∈ Operation.judging, (Instruction.operation op).isCounted = true := by
      decide
    rw [next_of_reads hs hreads]
    refine main_settle ?_
    by_cases hleft : s.opCount < maxOperations
    · have hexecuting : s.isExecuting = false :=
        Bool.eq_false_iff.2 fun hexecuting => hready ⟨hs, hexecuting, hleft⟩
      have hbehind : (s.behind (.operation op)).isExecuting = false := hexecuting
      have hskipped : ((s.behind (.operation op)).counted (.operation op)).isExecuting = false :=
        hexecuting
      have hobey := obey_eq (m := m) (s := s.behind (.operation op)) hreads.1 trivial
        fun _ => hleft
      rw [hobey, hbehind, Bool.or_false]
      rcases cases_of_judging m hop with hpassed | ⟨hunconditional, sense, hcarry⟩
      · rw [hpassed, if_neg Bool.false_ne_true]
        exact rfl
      · rw [hunconditional, if_pos rfl, hcarry, openBranch_of_not_executing hskipped]
        exact rfl
    · have hobey := obey_of_spent (m := m) (s := s.behind (.operation op)) hreads.1
        (hcounted op hop) (Nat.not_lt.1 hleft)
      rw [hobey]
      exact rfl
  · rw [next_of_halted hs]

/-! ### The answer -/

theorem answer_of_succeeded (hs : s.status = .succeeded) : (m.execute s).1 = .ok s.verdict := by
  have hanswer : (m.execute s).1 = (m.execute s).2.answer := rfl
  have hlast : (m.execute s).2 = s := by
    rw [Machine.execute_eq]
    exact iterate_next_of_halted (by simp [hs]) _
  rw [hanswer, hlast, State.answer, hs]

theorem answer_at_end (hs : s.status = .running) (hend : m.code.length ≤ s.pc)
    (hframes : s.frames = []) : (m.execute s).1 = .ok s.verdict := by
  have hlast : (m.execute s).2 = { s with status := .succeeded } := by
    have hone : m.stepsLeft s = 1 := by
      rw [stepsLeft, Nat.sub_eq_zero_of_le hend]
    rw [Machine.execute_eq, hone, Function.iterate_one, next_at_end hs hend, if_pos hframes]
  have hanswer : (m.execute s).1 = (m.execute s).2.answer := rfl
  rw [hanswer, hlast]
  rfl

/-! ### The top item -/

theorem mainAction?_ifDup (hcapacity : m.rules.capacity = some Stack.maxItems) :
    m.mainAction? (.operation (.shuffle .ifDup)) =
      some (Stack.shuffle (some Stack.maxItems) .ifDup) := by
  rw [← hcapacity]
  rfl

theorem step_of_ready_unary {u : Unary} {truth : Bool} (hready : s.IsReady)
    (hcapacity : m.rules.capacity = some Stack.maxItems) (hmain : s.main = top :: rest)
    (htop : IsOperand top) (hbyte : m.code[s.pc]? = some (Operation.unary u).toByte)
    (hu : u.apply (value top) = Number.ofTruth truth)
    (hroom : s.main.length + s.alt.length ≤ Stack.maxItems) :
    m.step s = .ok () (s.done (ofBool truth :: rest)) := by
  have haction := mainAction?_arithmetic hcapacity (.unary u)
  have hone := operations_arithmetic (.unary u)
  rw [hmain, List.length_cons] at hroom
  have hoperands : ∀ item ∈ [top], IsOperand item := by simpa using htop
  have harity : [top].length = (Arithmetic.unary u).arity := rfl
  have hspace : rest.length < Stack.maxItems := by omega
  have hrun := Arithmetic.action_of_operands harity hoperands hspace
  have hresult : Arithmetic.outcome (.unary u) [value top] = Number.ofTruth truth := hu
  rw [List.map_singleton, hresult, Arithmetic.encode_ofTruth, List.reverse_singleton,
    List.singleton_append, ← hmain] at hrun
  exact step_of_ready_ok (.unary u) hready hbyte hone haction hrun
    (by rw [List.length_cons]; omega)

/-- **A machine takes an operand on top as true iff it does not spell zero**, whatever word looks at
it. -/
theorem judges (hcapacity : m.rules.capacity = some Stack.maxItems)
    (hroom : s.status = .running → s.main.length + s.alt.length ≤ Stack.maxItems)
    (hmain : s.main = top :: rest) (htop : IsOperand top) :
    m.Judges s top rest (isTrue top) := by
  have hlen : rest.length + 1 = s.main.length := by rw [hmain, List.length_cons]
  have hitem : top.length ≤ Stack.maxItemSize := htop.1.trans (by decide)
  have hverdict : s.verdict = isTrue top := by rw [State.verdict, hmain]
  have hzero := Number.isTrue_eq top
  have hdup : ∀ capacity, Stack.shuffle capacity .ifDup s.main =
      if isTrue top then Stack.push capacity top s.main else .ok () s.main := by
    intro capacity
    rw [hmain, Stack.shuffle_ifDup]
  have hverify : Stack.verifyTop .verify s.main =
      if isTrue top then .ok () rest else .error .verify rest := by
    rw [hmain, Stack.verifyTop_cons]
  constructor
  case verdict_eq => exact hverdict
  case execute_eq =>
    rintro (hs | ⟨hs, hend, hframes⟩)
    · rw [answer_of_succeeded hs, hverdict]
    · rw [answer_at_end hs hend hframes, hverdict]
  case ifTrue =>
    intro hready hbyte
    rw [step_of_ready_opener (b := .ifTrue) hready rfl hmain hbyte (hroom hready.running),
      beq_true]
  case ifFalse =>
    intro hready hbyte
    rw [step_of_ready_opener (b := .ifFalse) hready rfl hmain hbyte (hroom hready.running),
      beq_false]
  case verify_of_true =>
    intro hready hbyte htrue
    rw [htrue, if_pos rfl] at hverify
    have hspace := hroom hready.running
    exact step_of_ready_ok .verify hready hbyte rfl rfl hverify (by omega)
  case verify_of_false =>
    intro hready hbyte hfalse
    rw [hfalse, if_neg Bool.false_ne_true] at hverify
    exact step_of_ready_error .verify hready hbyte rfl rfl hverify
  case ifDup_of_true =>
    intro hready hbyte htrue hspace
    have hrun := hdup (some Stack.maxItems)
    rw [htrue, if_pos rfl, Stack.push_eq_ok (by simp only [Stack.maxItems]; omega) hitem] at hrun
    rw [← hmain]
    refine step_of_ready_ok (.shuffle .ifDup) hready hbyte rfl
      (mainAction?_ifDup hcapacity) hrun ?_
    simp only [List.length_cons, Stack.maxItems]
    omega
  case ifDup_of_full =>
    intro hready hbyte htrue hfull
    have hrun := hdup (some Stack.maxItems)
    rw [htrue, if_pos rfl] at hrun
    by_cases hmany : Stack.maxItems ≤ s.main.length
    · rw [Stack.push_of_full hmany] at hrun
      exact ⟨_, step_of_ready_error (.shuffle .ifDup) hready hbyte rfl
        (mainAction?_ifDup hcapacity) hrun⟩
    · -- the copy finds room on the main stack, but not beside the other one
      rw [Stack.push_eq_ok (Nat.not_le.1 hmany) hitem] at hrun
      have hcrowded : Stack.maxItems < (top :: s.main).length + s.alt.length := by
        rw [List.length_cons, Stack.maxItems]
        omega
      exact ⟨_, step_of_ready_crowded (.shuffle .ifDup) hready hbyte rfl
        (mainAction?_ifDup hcapacity) hrun hcrowded⟩
  case ifDup_of_false =>
    intro hready hbyte hfalse
    have hrun := hdup (some Stack.maxItems)
    rw [hfalse, if_neg Bool.false_ne_true] at hrun
    rw [← hmain]
    exact step_of_ready_ok (.shuffle .ifDup) hready hbyte rfl
      (mainAction?_ifDup hcapacity) hrun (hroom hready.running)
  case notZero =>
    intro hready hbyte
    refine step_of_ready_unary (u := .notZero) hready hcapacity hmain htop hbyte ?_
      (hroom hready.running)
    rw [Unary.apply, hzero]
  case not =>
    intro hready hbyte
    refine step_of_ready_unary (u := .not) hready hcapacity hmain htop hbyte ?_
      (hroom hready.running)
    rw [Unary.apply, hzero, bne, Bool.not_not]
  case unread => exact fun hready op hop hbyte => main_next_of_not_isReady hready hop hbyte

/-! ### Equal items -/

theorem equal_eq_numEqual {x y : Bytes} (capacity : Stack.Capacity) (hx : IsOperand x)
    (hy : IsOperand y) (rest : Stack) :
    Stack.equal capacity (y :: x :: rest) = Stack.binary capacity .numEqual (y :: x :: rest) := by
  have hsame : (x == y) = (value x == value y) := by
    rw [Bool.eq_iff_iff, beq_iff_eq, beq_iff_eq]
    refine ⟨congrArg value, fun hvalue => ?_⟩
    rw [← Number.encode_value_of_isOperand hx, hvalue, Number.encode_value_of_isOperand hy]
  rw [Stack.equal_eq_pushTruth, Stack.binary_eq_pushNumber capacity .numEqual hx hy, hsame,
    Stack.pushTruth, Stack.pushNumber, Binary.apply, Arithmetic.encode_ofTruth]

theorem obey_eq_obey {m' : Machine} {op' : Operation} (hcounted : op.isCounted = op'.isCounted)
    (hunconditional : op.isUnconditional = op'.isUnconditional)
    (hperform : ∀ t : State, t.main = s.main → m.perform op t = m'.perform op' t) :
    m.obey (.operation op) s = m'.obey (.operation op') s := by
  have hcounted' : (Instruction.operation op).isCounted = (Instruction.operation op').isCounted :=
    hcounted
  have hunconditional' : (Instruction.operation op).isUnconditional =
      (Instruction.operation op').isUnconditional := hunconditional
  have hsame : s.counted (.operation op) = s.counted (.operation op') := by
    rw [State.counted, State.counted, Instruction.operations_singleton,
      Instruction.operations_singleton, hcounted']
  by_cases hspent : (Instruction.operation op).isCounted = true ∧ maxOperations ≤ s.opCount
  · rw [obey_of_spent (i := .operation op) trivial hspent.1 hspent.2, hsame]
    exact (obey_of_spent (i := .operation op') trivial (hcounted'.symm.trans hspent.1)
      hspent.2).symm
  · have hleft : (Instruction.operation op).isCounted = true → s.opCount < maxOperations :=
      fun hone => Nat.not_le.1 fun hle => hspent ⟨hone, hle⟩
    have hcarried : m.carryOut (.operation op) (s.counted (.operation op)) =
        m'.carryOut (.operation op') (s.counted (.operation op')) := by
      rw [← hsame]
      exact hperform _ rfl
    rw [obey_eq (i := .operation op) trivial trivial hleft, hcarried, hunconditional', hsame]
    exact (obey_eq (i := .operation op') trivial trivial (hcounted' ▸ hleft)).symm

/-- **Equal bytes and equal numbers are the same** of two operands. -/
theorem step_equal_eq_step_numEqual {m' : Machine} {x y : Bytes} (hrules : m.rules = m'.rules)
    (hmain : s.main = y :: x :: rest) (hx : IsOperand x) (hy : IsOperand y)
    (hbyte : m.code[s.pc]? = some 0x87) (hbyte' : m'.code[s.pc]? = some 0x9c) :
    m.step s = m'.step s := by
  cases hs : s.status with
  | succeeded => simp only [step, hs]
  | failed fault => simp only [step, hs]
  | running =>
    have hreads : m.Reads s (.operation .equal) := reads_of_getElem? hbyte
    have hreads' : m'.Reads s (.operation (.binary .numEqual)) := reads_of_getElem? hbyte'
    have hobey : m.obey (.operation .equal) (s.behind (.operation .equal)) =
        m'.obey (.operation (.binary .numEqual)) (s.behind (.operation (.binary .numEqual))) := by
      refine obey_eq_obey (by decide) rfl fun t ht => ?_
      have hask : m.ask .equal t.main = Stack.binary m'.rules.capacity .numEqual t.main := by
        rw [ht, ← hrules]
        refine (congrArg _ hmain).trans (.trans ?_ (congrArg _ hmain).symm)
        exact equal_eq_numEqual m.rules.capacity hx hy rest
      simp only [perform, Effect.onMain_apply, hask]
    rw [step_eq_of_advance hs, step_eq_of_advance hs, advance_of_reads hreads,
      advance_of_reads hreads', hobey]

/-! ### States that a machine comes to -/

/-- **Truth values and numbers agree.**  An item of any length is false iff it spells zero, which
for one that can be read means that it is read as zero; and the item for a number is true iff the
number is not zero.  However a machine is driven, the words that look at an operand on top as a
truth value, the answer, and the words that look at it as a number all go by the same truth.  Equal
bytes and equal numbers are the same of two operands, whatever else there is to the state. -/
theorem truth_agrees (primitives : Primitives) (digest : Digest) :
    (∀ item : Bytes, isTrue item = false ↔ Spells item 0) ∧
    (∀ item : Bytes, item.length ≤ 8 → (isTrue item = false ↔ decode? item false 8 = some 0)) ∧
    (∀ v : Int64, isTrue (encode v.toInt) = true ↔ v ≠ 0) ∧
    (∀ (code : Bytes) (m : Machine), Machine.load primitives digest code = .ok m →
      ∀ (cs : List Call) (top : Bytes) (rest : Stack), (m.calls cs {}).main = top :: rest →
        IsOperand top → m.Judges (m.calls cs {}) top rest (isTrue top)) ∧
    (∀ (code code' : Bytes) (m m' : Machine), Machine.load primitives digest code = .ok m →
      Machine.load primitives digest code' = .ok m' →
      ∀ (s : State) (x y : Bytes) (rest : Stack), s.main = y :: x :: rest →
        IsOperand x → IsOperand y → m.code[s.pc]? = some 0x87 → m'.code[s.pc]? = some 0x9c →
          m.step s = m'.step s) := by
  refine ⟨fun item => ?_, fun item hitem => ?_, fun v => ?_, ?_, ?_⟩
  · rw [Number.isTrue_eq_false_iff, Number.spells_iff]
  · exact Number.isTrue_eq_false_iff_decode? hitem
  · rw [Number.isTrue_encode, bne_iff_ne, Ne, Ne, ← Int64.toInt_inj, Int64.toInt_zero]
  · intro code m hload cs top rest hmain htop
    have hcapacity := capacity_of_load hload
    have hlimits : m.Limits (m.calls cs {}) :=
      (invariant_limits hcapacity).calls cs (limits_start m)
    exact judges hcapacity hlimits.length_le_of_running hmain htop
  · intro code code' m m' hload hload' s x y rest hmain hx hy hbyte hbyte'
    have hrules : m.rules = m'.rules := by
      rw [(of_load hload).2.2.2, (of_load hload').2.2.2]
    exact step_equal_eq_step_numEqual hrules hmain hx hy hbyte hbyte'

/-- A negative zero is false, and the least number true; minus one is verified; and two different
numbers are judged alike by their bytes. -/
theorem truth_agrees_minus_one : isTrue [0x00, 0x80] = false ∧
    isTrue (encode Int64.minValue.toInt) = true ∧
    ∃ m mEqual mNumEqual : Machine, Machine.load .standard .zero [0x01, 0x81, 0x69] = .ok m ∧
      m.step (m.calls [.step] {}) = .ok () ((m.calls [.step] {}).done []) ∧
      Machine.load .standard .zero [0x87] = .ok mEqual ∧
      Machine.load .standard .zero [0x9c] = .ok mNumEqual ∧
      mEqual.step { main := [[0x01], [0x81]] } = mNumEqual.step { main := [[0x01], [0x81]] } := by
  obtain ⟨-, hread, hencoded, hjudges, hequal⟩ := truth_agrees .standard .zero
  have hload : Machine.load .standard .zero [0x01, 0x81, 0x69] = .ok _ := load_eq (by decide)
  have hloadEqual : Machine.load .standard .zero [0x87] = .ok _ := load_eq (by decide)
  have hloadNumEqual : Machine.load .standard .zero [0x9c] = .ok _ := load_eq (by decide)
  have hminusOne := hjudges _ _ hload [.step] [0x81] [] (by decide) (by decide)
  refine ⟨(hread _ (by decide)).2 (by decide), (hencoded _).2 (by decide), _, _, _, hload, ?_,
    hloadEqual, hloadNumEqual, ?_⟩
  · exact hminusOne.verify_of_true ⟨by decide, by decide, by decide⟩ (by decide) (by decide)
  · exact hequal _ _ _ _ hloadEqual hloadNumEqual _ [0x81] [0x01] [] rfl (by decide) (by decide)
      rfl rfl

end Machine

end SpendScript
