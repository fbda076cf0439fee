import SpendScript.Proofs.Machine.Recording
import SpendScript.Proofs.Machine.Truth
import SpendScript.Proofs.Multisig.Assignment

/-!
# What a machine sees of its digest

A machine passes its digest to the primitives together with a key and a signature, and sees nothing
of it but the answer.  Which pairs it passes depends on the answers so far: a search among several
keys goes on by them (`Multisig.tried`), and so does a run (`Machine.passed`).  Still, if two
digests give the same answers for the pairs that are passed in a run under one of them, then the run
under the other is the same.

* `Multisig.search_congr` : a search depends on the pairs that it tries;
* `Machine.step_under` : a step depends on the pairs that it passes;
* `Machine.iterate_next_under` : so does a run, step by step;
* `Machine.digest_seen` : runs of some code under two digests.
-/

namespace SpendScript

/-! ### Searches -/

namespace Multisig

variable (signedBy : (publicKey signature : Bytes) → Bool) (publicKeys signatures : List Bytes)

/-- The pairs of a key and a signature that a search tries from the cursors on, in order. -/
def tried (c : Cursors) : List (Bytes × Bytes) :=
  if h : c.signature < signatures.length ∧ c.key < publicKeys.length then
    let publicKey := publicKeys.get ⟨c.key, h.2⟩
    let signature := signatures.get ⟨c.signature, h.1⟩
    let c' := c.pass (signedBy publicKey signature)
    (publicKey, signature) ::
      match left? publicKeys.length c'.key, left? signatures.length c'.signature with
      | some keysLeft, some signaturesLeft => if keysLeft < signaturesLeft then [] else tried c'
      | _, _ => []
  else []
termination_by publicKeys.length - c.key
decreasing_by simp only [Cursors.pass]; omega

variable {signedBy publicKeys signatures} {signedBy' : (publicKey signature : Bytes) → Bool}

theorem mem_tried {c : Cursors} (hc : c.signature < signatures.length ∧ c.key < publicKeys.length) :
    (publicKeys.get ⟨c.key, hc.2⟩, signatures.get ⟨c.signature, hc.1⟩) ∈
      tried signedBy publicKeys signatures c := by
  rw [tried, dif_pos hc]
  exact List.mem_cons_self

/-- **A search depends on the pairs that it tries.** -/
theorem search_congr {c : Cursors}
    (h : ∀ pair ∈ tried signedBy publicKeys signatures c,
      signedBy' pair.1 pair.2 = signedBy pair.1 pair.2) :
    search signedBy' publicKeys signatures c = search signedBy publicKeys signatures c := by
  fun_induction search signedBy publicKeys signatures c with
  | case1 c hc c' keysLeft signaturesLeft hsignatures hkeys hfew =>
    rw [search, dif_pos hc, h _ (mem_tried hc)]
    simp only [c'] at hkeys hsignatures
    simp only [hkeys, hsignatures, if_pos hfew]
  | case2 c hc c' keysLeft signaturesLeft hsignatures hkeys hfew ih =>
    rw [search, dif_pos hc, h _ (mem_tried hc)]
    rw [tried, dif_pos hc] at h
    simp only [c'] at hkeys hsignatures ih
    simp only [hkeys, hsignatures, if_neg hfew] at h ⊢
    exact ih fun pair hpair => h pair (List.mem_cons_of_mem _ hpair)
  | case3 c hc c' hnone =>
    -- inside the lists, what is left can always be counted
    have hs' : c'.signature ≤ signatures.length := signature_pass_le hc.1
    have hk' : c'.key ≤ publicKeys.length := hc.2
    exact absurd (left?_eq_some_iff.2 ⟨hs', rfl⟩) (hnone _ _ (left?_eq_some_iff.2 ⟨hk', rfl⟩))
  | case4 c hc => rw [search, dif_neg hc]

theorem accepts_congr
    (h : ∀ pair ∈ tried signedBy publicKeys signatures {},
      signedBy' pair.1 pair.2 = signedBy pair.1 pair.2) :
    accepts signedBy' publicKeys signatures = accepts signedBy publicKeys signatures := by
  rw [accepts, accepts, search_congr h]

end Multisig

/-! ### Pairs that are passed -/

namespace Stack

/-- Takes a key and a signature. -/
def takePair : Action (Bytes × Bytes) := do
  require 2
  let publicKey ← pop
  let signature ← pop
  return (publicKey, signature)

/-- Takes keys and signatures with their numbers, and the item below them. -/
def takeLists : Action (List Bytes × List Bytes) := do
  let n ← popCount maxKeys .keyCount
  let publicKeys ← popMany n
  let k ← popCount n .signatureCount
  let signatures ← popMany k
  let _ ← pop
  return (publicKeys, signatures)

end Stack

/-- The question that an operation puts to the main stack about signatures or, if it verifies the
answer, about anything. -/
def Operation.check? : Operation → Option Check
  | .checkSig => some .checkSig
  | .checkMultisig => some .checkMultisig
  | .verified c => some c
  | _ => none

/-- The words that check signatures. -/
def Operation.signatureChecks : List Operation :=
  [.checkSig, .verified .checkSig, .checkMultisig, .verified .checkMultisig]

namespace Machine

variable (m : Machine)

/-- The pairs of a key and a signature that are passed to the primitives to answer a question. -/
def passedFor (main : Stack) : Check → List (Bytes × Bytes)
  | .equal | .numEqual => []
  | .checkSig =>
    match Stack.takePair main with
    | .ok pair _ => [pair]
    | .error _ _ => []
  | .checkMultisig =>
    match Stack.takeLists main with
    | .ok (publicKeys, signatures) _ =>
      Multisig.tried (m.primitives.signedBy · · m.digest.bytes) publicKeys signatures {}
    | .error _ _ => []

/-- The pairs of a key and a signature that the next step passes to the primitives: those of the
word at the counter, if it is carried out and checks signatures. -/
def passed (s : State) : List (Bytes × Bytes) :=
  if s.isRunning && s.isExecuting && s.opCount < maxOperations then
    match (m.code[s.pc]?).bind Opcode.ofByte? with
    | some (.operation op) => (op.check?.map (m.passedFor s.main)).getD []
    | _ => []
  else []

/-- The machine with another digest. -/
def under (digest : Digest) : Machine :=
  { m with digest }

/-- For this pair, another digest gives the same answer. -/
def Indifferent (digest : Digest) (pair : Bytes × Bytes) : Prop :=
  m.primitives.signedBy pair.1 pair.2 digest.bytes =
    m.primitives.signedBy pair.1 pair.2 m.digest.bytes

variable {m} {digest : Digest} {s : State} {op : Operation} {c : Check} {i : Instruction}

theorem checkSignature_eq : m.checkSignature = do
    let pair ← Stack.takePair
    return m.primitives.signedBy pair.1 pair.2 m.digest.bytes := by
  simp only [checkSignature, Stack.takePair, bind_assoc, pure_bind]

theorem checkSignatures_eq : m.checkSignatures = do
    let lists ← Stack.takeLists
    return Multisig.accepts (m.primitives.signedBy · · m.digest.bytes) lists.1 lists.2 := by
  simp only [checkSignatures, Stack.takeLists, bind_assoc, pure_bind]

/-- **A question depends on the pairs that are passed for it.** -/
theorem ask_under {main : Stack} (h : ∀ pair ∈ m.passedFor main c, m.Indifferent digest pair) :
    (m.under digest).ask c main = m.ask c main := by
  cases c with
  | equal | numEqual => rfl
  | checkSig =>
    simp only [ask, checkSignature_eq, Effect.bind_apply]
    simp only [passedFor] at h
    cases htake : Stack.takePair main with
    | error fault rest => rfl
    | ok pair rest =>
      rw [htake] at h
      have hpair : m.Indifferent digest pair := h pair (List.mem_singleton_self pair)
      simp only [Effect.pure_apply, under]
      rw [hpair]
  | checkMultisig =>
    simp only [ask, checkSignatures_eq, Effect.bind_apply]
    simp only [passedFor] at h
    cases htake : Stack.takeLists main with
    | error fault rest => rfl
    | ok lists rest =>
      rw [htake] at h
      have haccepts : Multisig.accepts (m.primitives.signedBy · · digest.bytes) lists.1 lists.2 =
          Multisig.accepts (m.primitives.signedBy · · m.digest.bytes) lists.1 lists.2 :=
        Multisig.accepts_congr h
      simp only [Effect.pure_apply, under]
      rw [haccepts]

/-! ### Steps -/

theorem perform_under
    (h : ∀ c, op.check? = some c → ∀ pair ∈ m.passedFor s.main c, m.Indifferent digest pair) :
    (m.under digest).perform op s = m.perform op s := by
  cases op with
  | checkSig => simp only [perform, Effect.onMain_apply, ask_under (h .checkSig rfl)]
  | checkMultisig => simp only [perform, Effect.onMain_apply, ask_under (h .checkMultisig rfl)]
  | verified c =>
    simp only [perform, Effect.onMain_apply, Effect.bind_apply, ask_under (h c rfl)]
  | _ => rfl

theorem counted_of_check? (h : op.check? = some c) :
    op.isCounted = true ∧ op.isUnconditional = false := by
  cases op with
  | checkSig | checkMultisig => exact ⟨rfl, rfl⟩
  | verified c => cases c <;> exact ⟨rfl, rfl⟩
  | _ => exact absurd h (by simp [Operation.check?])

theorem obey_under
    (h : ∀ op c, i = .operation op → op.check? = some c → s.isExecuting = true →
      s.opCount < maxOperations → ∀ pair ∈ m.passedFor s.main c, m.Indifferent digest pair) :
    (m.under digest).obey i s = m.obey i s := by
  cases i with
  | push form data => rfl
  | unassigned byte => rfl
  | operation op =>
    cases hcheck : op.check? with
    | none =>
      exact obey_eq_obey rfl rfl fun t _ => perform_under fun c hc =>
        absurd (hcheck.symm.trans hc) (by simp)
    | some c =>
      obtain ⟨hcounted, hpassable⟩ := counted_of_check? hcheck
      have hi : (Instruction.operation op).isCounted = true := hcounted
      by_cases hspent : maxOperations ≤ s.opCount
      · have hobey := fun m : Machine =>
          obey_of_spent (m := m) (i := .operation op) trivial hi hspent
        rw [hobey, hobey]
      · have hleft := Nat.not_le.1 hspent
        by_cases hexecuting : s.isExecuting = true
        · refine obey_eq_obey rfl rfl fun t ht => perform_under fun c hc => ?_
          rw [ht]
          exact h op c rfl hc hexecuting hleft
        · -- the word is passed over, so nothing is passed to the primitives
          have hskipped :
              ((Instruction.operation op).isUnconditional || s.isExecuting) = false := by
            rw [Bool.eq_false_iff.2 hexecuting, Bool.or_false]
            exact hpassable
          have hobey := fun m : Machine =>
            obey_eq (m := m) (i := .operation op) (s := s) trivial trivial fun _ => hleft
          rw [hobey, hobey, hskipped, if_neg Bool.false_ne_true, if_neg Bool.false_ne_true]

/-- What the word at the counter passes, where it is carried out. -/
theorem passed_of_isReady (hready : s.IsReady) (hbyte : m.code[s.pc]? = some op.toByte)
    (hcheck : op.check? = some c) : m.passed s = m.passedFor s.main c := by
  have hop : Opcode.ofByte? op.toByte = some (.operation op) := Opcode.ofByte?_eq_some_iff.2 rfl
  rw [passed, if_pos, hbyte, Option.bind_some, hop]
  · simp only [hcheck, Option.map_some, Option.getD_some]
  · simp only [isRunning_iff.2 hready.running, hready.executing, hready.opCount_lt, decide_true,
      Bool.and_true]

/-- **A step depends on the pairs that it passes.** -/
theorem step_under (h : ∀ pair ∈ m.passed s, m.Indifferent digest pair) :
    (m.under digest).step s = m.step s := by
  cases hs : s.status with
  | succeeded => simp only [step, hs]
  | failed fault => simp only [step, hs]
  | running =>
    have hadvance : (m.under digest).advance s = m.advance s := by
      cases hcode : m.code.drop s.pc with
      | nil => simp only [advance, under, hcode]
      | cons first rest =>
        cases hread : Instruction.read first rest with
        | truncated size => simp only [advance, under, hcode, Effect.bind_apply, attempt, hread]
        | complete i size =>
          obtain ⟨hi, -, hprefix⟩ := Instruction.read_eq_complete_iff.1 hread
          have hreads : m.Reads s i := ⟨hi, hcode ▸ hprefix⟩
          have hreads' : (m.under digest).Reads s i := hreads
          rw [advance_of_reads hreads, advance_of_reads hreads', obey_under]
          intro op c hop hcheck hexecuting hleft
          have hready : s.IsReady := ⟨hs, hexecuting, hleft⟩
          rwa [passed_of_isReady hready (hreads.getElem?_pred hop) hcheck] at h
    rw [step_eq_of_advance hs, step_eq_of_advance hs, hadvance]

/-! ### Runs -/

/-- **A run depends on the pairs that it passes**, up to every step. -/
theorem iterate_next_under {n : Nat}
    (h : ∀ j < n, ∀ pair ∈ m.passed (m.next^[j] s), m.Indifferent digest pair) :
    (m.under digest).next^[n] s = m.next^[n] s := by
  induction n with
  | zero => rfl
  | succ n ih =>
    have hbefore := ih fun j hj => h j (Nat.lt_succ_of_lt hj)
    rw [Function.iterate_succ_apply', Function.iterate_succ_apply', hbefore, next, next,
      step_under (h n (Nat.lt_succ_self n))]

/-- The second machine does the same as the first one, from the state on. -/
structure SameRun (m m' : Machine) (s : State) : Prop where
  /-- After every number of steps the state is the same. -/
  iterate_eq : ∀ n, m'.next^[n] s = m.next^[n] s
  /-- So is the answer of every step. -/
  step_eq : ∀ n, m'.step (m.next^[n] s) = m.step (m.next^[n] s)
  /-- A recorded run is the same. -/
  trace_eq : m'.trace s = m.trace s
  /-- A run to the end is the same. -/
  execute_eq : m'.execute s = m.execute s

theorem record_congr (m' : Machine) (hcode : m'.code = m.code)
    (hstep : ∀ n, m'.step (m.next^[n] s) = m.step (m.next^[n] s)) (most : Nat) :
    m'.record most s = m.record most s := by
  induction most generalizing s with
  | zero => rfl
  | succ most ih =>
    have hfirst : m'.step s = m.step s := hstep 0
    have hrest : m'.record most (m.next s) = m.record most (m.next s) :=
      ih fun n => hstep (n + 1)
    unfold next at hrest
    rw [record, record, hcode, hfirst]
    cases hresult : m.step s with
    | ok _ t =>
      rw [hresult] at hrest
      simp only [hrest]
    | error fault t =>
      rw [hresult] at hrest
      simp only [hrest]

section

variable (h : ∀ n, ∀ pair ∈ m.passed (m.next^[n] s), m.Indifferent digest pair)

include h

theorem execute_under : (m.under digest).execute s = m.execute s := by
  have hlast : ((m.under digest).execute s).2 = (m.execute s).2 := by
    rw [Machine.execute_eq, Machine.execute_eq]
    exact iterate_next_under fun n _ => h n
  exact Prod.ext (congrArg State.answer hlast) hlast

theorem trace_under : (m.under digest).trace s = m.trace s := by
  have hrecord : (m.under digest).record (m.code.length - s.pc) s =
      m.record (m.code.length - s.pc) s :=
    record_congr (m := m) (m.under digest) rfl (fun n => step_under (h n)) _
  -- the run goes on where the record ends, which is a state of the run
  obtain ⟨hlast, -⟩ := record_spec (m := m) (m.code.length - s.pc) s
  have hrest : ∀ n, ∀ pair ∈ m.passed (m.next^[n] (m.record (m.code.length - s.pc) s).2),
      m.Indifferent digest pair := by
    intro n
    rw [hlast, iterate_next_add]
    exact h _
  have hend : ((m.under digest).trace s).2 = (m.trace s).2 := by
    rw [trace_snd, trace_snd, ← execute_under hrest, ← hrecord]
    rfl
  have hsteps : ((m.under digest).trace s).1 = (m.trace s).1 := by
    rw [trace_fst, trace_fst, ← hrecord]
    rfl
  exact Prod.ext hsteps hend

/-- **A run depends on the pairs that it passes.** -/
theorem sameRun_under : m.SameRun (m.under digest) s where
  iterate_eq _ := iterate_next_under fun n _ => h n
  step_eq n := step_under (h n)
  trace_eq := trace_under h
  execute_eq := execute_under h

end

theorem passed_eq_nil
    (h : s.IsReady → ∀ op ∈ Operation.signatureChecks, m.code[s.pc]? ≠ some op.toByte) :
    m.passed s = [] := by
  unfold passed
  split
  · rename_i hready
    simp only [Bool.and_eq_true, decide_eq_true_eq] at hready
    have hready : s.IsReady := ⟨isRunning_iff.1 hready.1.1, hready.1.2, hready.2⟩
    split
    · rename_i op hop
      obtain ⟨byte, hbyte, hop⟩ := Option.bind_eq_some_iff.1 hop
      have hnot := h hready op
      rw [hbyte, ← Opcode.ofByte?_eq_some_iff.1 hop] at hnot
      have hother : op ∉ Operation.signatureChecks := fun hmem => hnot hmem rfl
      cases op with
      | checkSig | checkMultisig => exact absurd (by decide) hother
      | verified c =>
        cases c with
        | equal | numEqual => rfl
        | checkSig | checkMultisig => exact absurd (by decide) hother
      | _ => rfl
    · rfl
  · rfl

/-- **The digest is seen through signature checks only.**  Code is loaded under all digests or
under none.  If, for every pair of a key and a signature that a run under one digest passes to the
primitives, the answer is the same under another one, then the run under the other is the same,
after every step and as a whole; in particular if no word that checks signatures is carried out.  As
long as the answers have been the same, the states are. -/
theorem digest_seen (primitives : Primitives) (digest digest' : Digest) (code : Bytes) :
    (∀ fault, Machine.load primitives digest code = .error fault →
      Machine.load primitives digest' code = .error fault) ∧
    ∀ m, Machine.load primitives digest code = .ok m →
      ∃ m', Machine.load primitives digest' code = .ok m' ∧
        ((∀ n, ∀ pair ∈ m.passed (m.next^[n] {}),
            primitives.signedBy pair.1 pair.2 digest'.bytes =
              primitives.signedBy pair.1 pair.2 digest.bytes) → m.SameRun m' {}) ∧
        ((∀ n, (m.next^[n] {}).IsReady → ∀ op ∈ Operation.signatureChecks,
            m.code[(m.next^[n] {}).pc]? ≠ some op.toByte) → m.SameRun m' {}) ∧
        ∀ n, (∀ j < n, ∀ pair ∈ m.passed (m.next^[j] {}),
            primitives.signedBy pair.1 pair.2 digest'.bytes =
              primitives.signedBy pair.1 pair.2 digest.bytes) →
          ∀ j ≤ n, m'.next^[j] {} = m.next^[j] {} := by
  refine ⟨fun fault hfault => ?_, fun m hload => ?_⟩
  · unfold Machine.load at hfault ⊢
    split at hfault
    · exact absurd hfault (by simp)
    · rename_i hlong
      rw [dif_neg hlong]
      exact hfault
  · unfold Machine.load at hload
    split at hload
    · rename_i hlen
      obtain rfl := Except.ok.inj hload
      refine ⟨_, load_eq hlen, fun h => sameRun_under h, fun h => ?_, fun n h j hj => ?_⟩
      · refine @sameRun_under _ digest' _ fun n pair hpair => ?_
        rw [passed_eq_nil (h n)] at hpair
        exact absurd hpair List.not_mem_nil
      · exact @iterate_next_under _ digest' _ _ fun k hk => h k (Nat.lt_of_lt_of_le hk hj)
    · exact absurd hload (by simp)

/-- Two digests differ in the answer about a key, but it is not passed: one check of a signature is
passed over, and the other one is about empty items. -/
theorem digest_seen_passedOver : ∃ (primitives : Primitives) (digest' : Digest) (m m' : Machine),
    primitives.signedBy [1] [] Digest.zero.bytes ≠ primitives.signedBy [1] [] digest'.bytes ∧
    Machine.load primitives .zero [0x51, 0x00, 0x63, 0xac, 0x68, 0x00, 0x00, 0xac] = .ok m ∧
    Machine.load primitives digest' [0x51, 0x00, 0x63, 0xac, 0x68, 0x00, 0x00, 0xac] = .ok m' ∧
    m.passed (m.next^[7] {}) = [([], [])] ∧ m.SameRun m' {} := by
  let primitives : Primitives :=
    { Primitives.standard with
      signedBy := fun key _ digest => key == [1] && digest == Digest.zero.bytes }
  let digest' : Digest := ⟨List.replicate 32 1, rfl⟩
  have hload : Machine.load primitives .zero [0x51, 0x00, 0x63, 0xac, 0x68, 0x00, 0x00, 0xac] =
      .ok _ := load_eq (by decide)
  obtain ⟨-, hloaded⟩ := digest_seen primitives .zero digest'
    [0x51, 0x00, 0x63, 0xac, 0x68, 0x00, 0x00, 0xac]
  obtain ⟨m', hload', hsame, -, -⟩ := hloaded _ hload
  refine ⟨primitives, digest', _, m', by decide, hload, hload', by decide +kernel,
    hsame fun n => ?_⟩
  by_cases hn : n < 9
  · revert n
    decide +kernel
  · rw [iterate_next_eq_of_le (j := 9) (by decide +kernel) (Nat.not_lt.1 hn), passed_eq_nil]
    · exact fun pair hpair => absurd hpair List.not_mem_nil
    · exact fun hready => absurd hready.running (by decide +kernel)

end Machine

end SpendScript
