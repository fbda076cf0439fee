import SpendScript.Proofs.Machine.Capacity
import SpendScript.Proofs.Machine.Truth
import SpendScript.Proofs.Machine.WellFormed

/-!
# Words that stand for two

Some words do at once what two others do one after the other: a question that is verified, and two
hash functions in a row (`HashWord.parts?`).  A machine that comes to such a word succeeds just if
it would with the two words in its place, and leaves the same items and the same open conditionals
whether it succeeds or not (`Machine.SameResults`).  The faults are the same, but for a question
that is answered no: the single word tells which question it was (`Check.Condenses`).

* `Stack.Replaces.take`, `Machine.replaces_ask` : a question leaves an answer in the place of two
  items or more, so there is room between the two words;
* `Machine.condenses`, `Machine.sameResults_hash` : a word and the two that it stands for;
* `Machine.expansions_calls` : both in all states that a machine comes to.
-/

namespace SpendScript

open Instruction (operations)

/-! ### One item in the place of others -/

namespace Stack

/-- From a bounded stack, the action leaves an item within `P` in the place of at least `n` items,
unless it fails. -/
def Replaces (n : Nat) (action : Action Unit) (P : Bytes → Prop) : Prop :=
  ∀ s, Bounded s → ∀ t, action s = .ok () t →
    ∃ item rest, t = item :: rest ∧ rest.length + n ≤ s.length ∧ P item

variable {α : Type} {m n : Nat} {R : α → Prop} {P : Bytes → Prop} {action : Action α}

theorem Replaces.push {capacity : Capacity} {item : Bytes} (h : P item) :
    Replaces 0 (push capacity item) P := by
  intro s _ t hpush
  unfold Stack.push at hpush
  split at hpush
  · exact absurd hpush (by simp)
  · obtain ⟨-, rfl⟩ := EStateM.Result.ok.inj hpush
    exact ⟨item, s, rfl, Nat.le_refl _, h⟩

theorem Replaces.take {f : α → Action Unit} (h : Takes m action R)
    (hf : ∀ a, R a → Replaces n (f a) P) : Replaces (m + n) (action >>= f) P := by
  intro s hs u hbind
  obtain ⟨a, t, haction, hnext⟩ := Effect.bind_eq_ok_iff.1 hbind
  obtain ⟨ht, hlen, ha⟩ := h s hs a t haction
  obtain ⟨item, rest, rfl, hrest, hitem⟩ := hf a ha t ht u hnext
  exact ⟨item, rest, rfl, by omega, hitem⟩

end Stack

/-! ### Words and what they stand for -/

/-- The word that asks the question and leaves the answer. -/
def Check.question : Check → Operation
  | .equal => .equal
  | .numEqual => .binary .numEqual
  | .checkSig => .checkSig
  | .checkMultisig => .checkMultisig

/-- The two hash words that a hash word stands for, if it stands for two. -/
def HashWord.parts? : HashWord → Option (HashWord × HashWord)
  | .hash160 => some (.sha256, .ripemd160)
  | .hash256 => some (.sha256, .sha256)
  | .ripemd160 | .sha1 | .sha256 => none

/-- The same items are on the stacks, and the same conditionals are open. -/
structure State.SameItems (s t : State) : Prop where
  /-- The main stacks are the same. -/
  main_eq : t.main = s.main
  /-- The alternate stacks are the same. -/
  alt_eq : t.alt = s.alt
  /-- The frames are the same. -/
  frames_eq : t.frames = s.frames

namespace Machine

/-- Both results are successes, or failures with the same fault, and left the same items and
conditionals. -/
inductive SameResults :
    EStateM.Result Fault State Unit → EStateM.Result Fault State Unit → Prop
  /-- Two successes. -/
  | ok {t u : State} (h : t.SameItems u) : SameResults (.ok () t) (.ok () u)
  /-- Two failures. -/
  | error (fault : Fault) {t u : State} (h : t.SameItems u) :
      SameResults (.error fault t) (.error fault u)

variable (m : Machine)

/-- Makes two steps, unless the first one fails. -/
def stepTwice : Effect Unit := do
  m.step
  m.step

end Machine

/-- A word that verifies the answer to a question does in one step what the question (`asked`) and a
check of its answer do (`both`). -/
structure Check.Condenses (c : Check)
    (one asked both : EStateM.Result Fault State Unit) : Prop where
  /-- If the answer is no, both fail, and all that differs is the fault that tells of it. -/
  no : ∀ v, asked = .ok () v → v.verdict = false →
    ∃ t u, one = .error (.verified c) t ∧ both = .error .verify u ∧ t.SameItems u
  /-- If it is yes, or if there is no answer, nothing differs. -/
  same : (∀ v, asked = .ok () v → v.verdict = true) → Machine.SameResults one both

namespace Machine

variable {m m' : Machine} {s t : State}

theorem stepTwice_of_ok (h : m.step s = .ok () t) : m.stepTwice s = m.step t := by
  rw [stepTwice, Effect.bind_apply, h]

theorem stepTwice_of_error {fault : Fault} (h : m.step s = .error fault t) :
    m.stepTwice s = .error fault t := by
  rw [stepTwice, Effect.bind_apply, h]

theorem ask_congr (hdigest : m'.digest = m.digest) (hprimitives : m'.primitives = m.primitives)
    (hrules : m'.rules = m.rules) : m'.ask = m.ask := by
  rw [eq_of_code hdigest hprimitives hrules]
  rfl

/-- **A question leaves an answer** in the place of two items or more. -/
theorem replaces_ask (c : Check) :
    Stack.Replaces 2 (m.ask c) fun item => ∃ answer, item = Number.ofBool answer := by
  cases c with
  | equal =>
    exact .take (Stack.takes_require 2) fun _ _ => .take (n := 1) Stack.takes_pop fun _ _ =>
      .take (n := 0) Stack.takes_pop fun _ _ => .push ⟨_, rfl⟩
  | numEqual =>
    refine .take (n := 2) (Stack.takes_require 2) fun _ _ => .take (n := 1)
      (Stack.takes_popNumber _) fun b _ => .take (n := 0) (Stack.takes_popNumber _) fun a _ =>
        .push ⟨a == b, ?_⟩
    rw [Binary.apply, Arithmetic.encode_ofTruth]
  | checkSig => exact .take (n := 0) takes_checkSignature fun answer _ => .push ⟨answer, rfl⟩
  | checkMultisig =>
    intro stack hstack left hask
    obtain ⟨item, rest, hleft, hlen, hitem⟩ :=
      Stack.Replaces.take (n := 0) takes_checkSignatures
        (fun answer _ => .push (P := fun item => ∃ answer, item = Number.ofBool answer)
          ⟨answer, rfl⟩) stack hstack left hask
    exact ⟨item, rest, hleft, by omega, hitem⟩

/-! ### One step and two -/

theorem mainAction?_question (c : Check) :
    m.mainAction? (.operation c.question) = some (m.ask c) := by
  cases c <;> rfl

theorem operations_question (c : Check) : operations [.operation c.question] = 1 := by
  cases c <;> rfl

theorem operations_verified (c : Check) : operations [.operation (.verified c)] = 1 := by
  cases c <;> rfl

theorem operations_hash (word : HashWord) : operations [.operation (.hash word)] = 1 := by
  cases word <;> rfl

section

variable (hready : s.IsReady) (hcount : s.opCount + 2 ≤ maxOperations)

include hready hcount

theorem isReady_done (main : Stack) : (s.done main).IsReady where
  running := hready.running
  executing := hready.executing
  opCount_lt := hcount

variable (hroom : s.main.length + s.alt.length ≤ Stack.maxItems)

include hroom

/-- **A question and a check of its answer in one word.** -/
theorem condenses {c : Check} (hmain : Stack.Bounded s.main) (hask : m'.ask = m.ask)
    (hbyte : m.code[s.pc]? = some (Operation.verified c).toByte)
    (hfirst : m'.code[s.pc]? = some c.question.toByte)
    (hsecond : m'.code[s.pc + 1]? = some Operation.verify.toByte) :
    c.Condenses (m.step s) (m'.step s) (m'.stepTwice s) := by
  have haction : m'.mainAction? (.operation c.question) = some (m.ask c) := by
    rw [mainAction?_question, hask]
  have hone := operations_verified c
  have hquestion := operations_question c
  cases hanswer : m.ask c s.main with
  | error fault main =>
    -- no answer: the machine fails before there is anything to verify
    have hverified : (do m.ask c; Stack.verifyTop (.verified c)) s.main = .error fault main := by
      rw [Effect.bind_apply, hanswer]
    have hsingle := step_of_ready_error (.verified c) hready hbyte hone rfl hverified
    have hasked := step_of_ready_error c.question hready hfirst hquestion haction hanswer
    refine ⟨fun v hv => absurd (hasked.symm.trans hv) (by simp), fun _ => ?_⟩
    rw [hsingle, stepTwice_of_error hasked]
    exact .error fault ⟨rfl, rfl, rfl⟩
  | ok _ main =>
    obtain ⟨_, rest, rfl, hlen, answer, rfl⟩ := replaces_ask c s.main hmain main hanswer
    have hverified : (do m.ask c; Stack.verifyTop (.verified c)) s.main =
        if answer then .ok () rest else .error (.verified c) rest := by
      rw [Effect.bind_apply, hanswer]
      exact Stack.verifyTop_ofBool (.verified c) answer rest
    have hchecked := Stack.verifyTop_ofBool .verify answer rest
    have hasked := step_of_ready_ok c.question hready hfirst hquestion haction hanswer
      (by rw [List.length_cons]; omega)
    have hready' := isReady_done hready hcount (Number.ofBool answer :: rest)
    have hverdict : (s.done (Number.ofBool answer :: rest)).verdict = answer :=
      Number.isTrue_ofBool answer
    cases answer with
    | true =>
      have hsingle := step_of_ready_ok (.verified c) hready hbyte hone rfl hverified (by omega)
      have hboth := step_of_ready_ok .verify hready' hsecond rfl rfl hchecked
        (show rest.length + s.alt.length ≤ _ by omega)
      refine ⟨fun v hv hno => ?_, fun _ => ?_⟩
      · obtain rfl := (EStateM.Result.ok.inj (hasked.symm.trans hv)).2
        exact absurd (hverdict.symm.trans hno) (by simp)
      · rw [hsingle, stepTwice_of_ok hasked, hboth]
        exact .ok ⟨rfl, rfl, rfl⟩
    | false =>
      have hsingle := step_of_ready_error (.verified c) hready hbyte hone rfl hverified
      have hboth := step_of_ready_error .verify hready' hsecond rfl rfl hchecked
      refine ⟨fun _ _ _ => ⟨_, _, hsingle, (stepTwice_of_ok hasked).trans hboth, rfl, rfl, rfl⟩,
        fun hyes => ?_⟩
      exact absurd (hverdict.symm.trans (hyes _ hasked)) (by simp)

/-- **Two hash functions in one word.** -/
theorem sameResults_hash {word first second : HashWord}
    (hparts : word.parts? = some (first, second))
    (hcapacity : m.rules.capacity = some Stack.maxItems)
    (hcapacity' : m'.rules.capacity = some Stack.maxItems)
    (hprimitives : m'.primitives = m.primitives) (hshort : m.primitives.Short)
    (hbyte : m.code[s.pc]? = some (Operation.hash word).toByte)
    (hfirst : m'.code[s.pc]? = some (Operation.hash first).toByte)
    (hsecond : m'.code[s.pc + 1]? = some (Operation.hash second).toByte) :
    SameResults (m.step s) (m'.stepTwice s) := by
  have hone := operations_hash
  have haction : ∀ h, m.mainAction? (.operation (.hash h)) =
      some (Stack.mapTop (some Stack.maxItems) (m.primitives.hash h)) := by
    intro h
    rw [← hcapacity]
    rfl
  have haction' : ∀ h, m'.mainAction? (.operation (.hash h)) =
      some (Stack.mapTop (some Stack.maxItems) (m.primitives.hash h)) := by
    intro h
    rw [← hcapacity', ← hprimitives]
    rfl
  have hhash : ∀ item, m.primitives.hash word item =
      m.primitives.hash second (m.primitives.hash first item) := by
    intro item
    cases word with
    | hash160 | hash256 => obtain ⟨rfl, rfl⟩ := Prod.mk.inj (Option.some.inj hparts); rfl
    | ripemd160 | sha1 | sha256 => exact absurd hparts (by simp [HashWord.parts?])
  cases hstack : s.main with
  | nil =>
    have hempty : ∀ h, Stack.mapTop (some Stack.maxItems) (m.primitives.hash h) s.main =
        .error .badStackOperation [] := by
      intro h
      rw [hstack]
      rfl
    rw [step_of_ready_error (.hash word) hready hbyte (hone word) (haction word) (hempty word),
      stepTwice_of_error (step_of_ready_error (.hash first) hready hfirst (hone first)
        (haction' first) (hempty first))]
    exact .error _ ⟨rfl, rfl, rfl⟩
  | cons item rest =>
    rw [hstack, List.length_cons] at hroom
    have hspace : rest.length < Stack.maxItems := by omega
    have hmapped : ∀ h item, Stack.mapTop (some Stack.maxItems) (m.primitives.hash h)
        (item :: rest) = .ok () (m.primitives.hash h item :: rest) :=
      fun h item => Stack.mapTop_cons hspace (hshort h item)
    have hleft : ∀ item : Bytes, (item :: rest).length + s.alt.length ≤ Stack.maxItems := by
      intro item
      rw [List.length_cons]
      omega
    have hsingle := step_of_ready_ok (.hash word) hready hbyte (hone word) (haction word)
      ((congrArg _ hstack).trans (hmapped word item)) (hleft _)
    have hfront := step_of_ready_ok (.hash first) hready hfirst (hone first) (haction' first)
      ((congrArg _ hstack).trans (hmapped first item)) (hleft _)
    have hback := step_of_ready_ok (.hash second) (isReady_done hready hcount _) hsecond
      (hone second) (haction' second) (hmapped second (m.primitives.hash first item)) (hleft _)
    rw [hsingle, stepTwice_of_ok hfront, hback, hhash]
    exact .ok ⟨rfl, rfl, rfl⟩

end

/-! ### States that a machine comes to -/

/-- **Words that stand for two.**  However a machine was driven, if it runs, is in no branch that is
passed over and has two operations left, then a word that verifies the answer to a question does
what the question and a check of the answer do in its place; and a word for two hash functions does
what the two words for these do. -/
theorem expansions_calls {primitives : Primitives} {digest : Digest} {code code' code'' : Bytes}
    {m'' : Machine} (hload'' : Machine.load primitives digest code'' = .ok m'') (cs : List Call)
    (hs : s = m''.calls cs {}) (hrunning : s.status = .running) (hexecuting : s.isExecuting = true)
    (hcount : s.opCount + 2 ≤ maxOperations)
    (hload : Machine.load primitives digest code = .ok m)
    (hload' : Machine.load primitives digest code' = .ok m') :
    (∀ c : Check, code[s.pc]? = some (Operation.verified c).toByte →
      code'[s.pc]? = some c.question.toByte → code'[s.pc + 1]? = some Operation.verify.toByte →
        c.Condenses (m.step s) (m'.step s) (m'.stepTwice s)) ∧
    (primitives.Short → ∀ word first second : HashWord, word.parts? = some (first, second) →
      code[s.pc]? = some (Operation.hash word).toByte →
      code'[s.pc]? = some (Operation.hash first).toByte →
      code'[s.pc + 1]? = some (Operation.hash second).toByte →
        SameResults (m.step s) (m'.stepTwice s)) := by
  obtain ⟨rfl, hdigest, hprimitives, hrules⟩ := of_load hload
  obtain ⟨rfl, hdigest', hprimitives', hrules'⟩ := of_load hload'
  have hlimits := limits_calls hload'' cs
  rw [← hs] at hlimits
  have hready : s.IsReady := ⟨hrunning, hexecuting, Nat.lt_of_succ_lt hcount⟩
  have hmain := (hlimits.sound hrunning).main
  have hroom := hlimits.length_le_of_running hrunning
  refine ⟨fun c hbyte hfirst hsecond => ?_,
    fun hshort word first second hparts hbyte hfirst hsecond => ?_⟩
  · have hask := ask_congr (hdigest'.trans hdigest.symm) (hprimitives'.trans hprimitives.symm)
      (hrules'.trans hrules.symm)
    exact condenses hready hcount hroom hmain hask hbyte hfirst hsecond
  · exact sameResults_hash hready hcount hroom hparts (capacity_of_load hload)
      (capacity_of_load hload') (hprimitives'.trans hprimitives.symm) (hprimitives ▸ hshort) hbyte
      hfirst hsecond

/-- One and two are not the same: the single word tells that the items are not equal, and the two
words that an item is false, and both took the items.  On an empty stack there is nothing to
hash. -/
theorem expansions_calls_unequal : ∃ m m' h h' t u,
    Machine.load .standard .zero [0x51, 0x52, 0x88] = .ok m ∧
    Machine.load .standard .zero [0x51, 0x52, 0x87, 0x69] = .ok m' ∧
    m.step { pc := 2, main := [[2], [1]] } = .error (.verified .equal) t ∧
    m'.stepTwice { pc := 2, main := [[2], [1]] } = .error .verify u ∧ t.SameItems u ∧
    Machine.load .standard .zero [0xa9] = .ok h ∧
    Machine.load .standard .zero [0xa8, 0xa6] = .ok h' ∧
    SameResults (h.step {}) (h'.stepTwice {}) ∧
    (h.next {}).status = .failed .badStackOperation := by
  have hload : Machine.load .standard .zero [0x51, 0x52, 0x88] = .ok _ := load_eq (by decide)
  have hload' : Machine.load .standard .zero [0x51, 0x52, 0x87, 0x69] = .ok _ :=
    load_eq (by decide)
  have hloadHash : Machine.load .standard .zero [0xa9] = .ok _ := load_eq (by decide)
  have hloadHash' : Machine.load .standard .zero [0xa8, 0xa6] = .ok _ := load_eq (by decide)
  obtain ⟨hverified, -⟩ := expansions_calls (s := { pc := 2, main := [[2], [1]] }) hload
    [.step, .step] (by decide +kernel) rfl rfl (by decide) hload hload'
  obtain ⟨-, hhash⟩ := expansions_calls (s := {}) hloadHash [] rfl rfl rfl (by decide) hloadHash
    hloadHash'
  obtain ⟨t, u, ht, hu, hsame⟩ := (hverified .equal rfl rfl rfl).no
    { pc := 3, main := [[]], opCount := 1 } rfl rfl
  exact ⟨_, _, _, _, t, u, hload, hload', ht, hu, hsame, hloadHash, hloadHash',
    hhash (Primitives.short_standard _) .hash160 .sha256 .ripemd160 rfl rfl rfl rfl, rfl⟩

end Machine

end SpendScript
