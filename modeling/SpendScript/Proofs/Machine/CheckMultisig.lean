import SpendScript.Crypto.ScriptSignature
import SpendScript.Proofs.Machine.Move
import SpendScript.Proofs.Multisig.Assignment
import SpendScript.Proofs.Number.Operand
import SpendScript.Proofs.Stack.Operands

/-!
# Checking several signatures on the stack

The check of several signatures takes its operands from the top, the last pushed first: the number
of keys, the keys, the number of signatures, the signatures, and an item that nothing depends on.
So both lists reach the search in the reverse of the order in which they were pushed, which makes no
difference to whether the signatures fit.

* `Machine.checkSignatures_operands` : what the check makes of its operands;
* `Machine.checkSignatures_of_refused` : what it says of a stack that has something else in their
  place, which is about the first thing that is wrong (`Machine.Refused`);
* `Machine.operands_or_refused` : no stack is left over;
* `Machine.step_checkMultisig` : so much for the step of a machine.
-/

namespace SpendScript

open Number (encode value)

/-! ### Taking operands -/

namespace Stack

variable {item : Bytes} {rest : Stack} {most : Int} {fault : Fault} {n : Nat}

theorem popCount_nil : popCount most fault [] = .error .badStackOperation [] := rfl

theorem popCount_cons (item : Bytes) (rest : Stack) (most : Int) (fault : Fault) :
    popCount most fault (item :: rest) =
      if Number.IsOperand item then
        if value item < 0 ∨ most < value item then .error fault rest
        else .ok (value item).toNat rest
      else .error .numberRange rest := by
  simp only [popCount, Effect.bind_apply, popNumber_cons]
  by_cases hitem : Number.IsOperand item
  · simp only [if_pos hitem, Effect.ite_apply, Effect.pure_apply, Effect.bind_apply]
    split <;> rfl
  · simp only [if_neg hitem]

theorem popCount_encode (hn : n ≤ 20) (hmost : (n : Int) ≤ most) (fault : Fault) (rest : Stack) :
    popCount most fault (encode n :: rest) = .ok n rest := by
  rw [popCount_cons, if_pos (Number.isOperand_encode hn), Number.value_encode, if_neg (by omega),
    Int.toNat_natCast]

theorem popMany_append (items rest : List Bytes) :
    popMany items.length (items ++ rest) = .ok items rest := by
  induction items with
  | nil => rfl
  | cons item items ih =>
    simp only [List.length_cons, List.cons_append, popMany, Effect.bind_apply, pop, ih,
      Effect.pure_apply]

theorem popMany_of_lt {s : Stack} (h : s.length < n) :
    popMany n s = .error .badStackOperation [] := by
  induction n generalizing s with
  | zero => exact absurd h (Nat.not_lt_zero _)
  | succ n ih =>
    cases s with
    | nil => rfl
    | cons item s =>
      simp only [popMany, Effect.bind_apply, pop, ih (Nat.lt_of_succ_lt_succ h)]

theorem exists_append_or_lt (s : Stack) (n : Nat) :
    s.length < n ∨ ∃ items rest, items.length = n ∧ s = items ++ rest := by
  by_cases h : s.length < n
  · exact .inl h
  · exact .inr ⟨s.take n, s.drop n, List.length_take_of_le (Nat.not_lt.1 h),
      (List.take_append_drop n s).symm⟩

end Stack

namespace Machine

/-! ### Operands and other stacks -/

/-- A stack with the operands of the check on top of others, where the first key and the first
signature were pushed first. -/
def operands (keys signatures : List Bytes) (dummy : Bytes) (base : Stack) : Stack :=
  encode keys.length ::
    (keys.reverse ++ encode signatures.length :: (signatures.reverse ++ dummy :: base))

/-- The stack is refused with a fault, which is about the first item from the top that is missing
or wrong. -/
inductive Refused : Stack → Fault → Prop
  /-- There is no number of keys. -/
  | noKeyCount : Refused [] .badStackOperation
  /-- The number of keys is no operand. -/
  | badKeyCount {item : Bytes} {rest : Stack} (hitem : ¬ Number.IsOperand item) :
      Refused (item :: rest) .numberRange
  /-- The number of keys is out of range. -/
  | keyCount {item : Bytes} {rest : Stack} (hitem : Number.IsOperand item)
      (hrange : value item < 0 ∨ 20 < value item) : Refused (item :: rest) .keyCount
  /-- There are not as many keys. -/
  | noKey {n : Nat} {rest : Stack} (hn : n ≤ 20) (hrest : rest.length < n) :
      Refused (encode n :: rest) .badStackOperation
  /-- There is no number of signatures. -/
  | noSignatureCount {keys : List Bytes} (hn : keys.length ≤ 20) :
      Refused (encode keys.length :: keys) .badStackOperation
  /-- The number of signatures is no operand. -/
  | badSignatureCount {keys : List Bytes} {item : Bytes} {rest : Stack} (hn : keys.length ≤ 20)
      (hitem : ¬ Number.IsOperand item) :
      Refused (encode keys.length :: (keys ++ item :: rest)) .numberRange
  /-- The number of signatures is out of range. -/
  | signatureCount {keys : List Bytes} {item : Bytes} {rest : Stack} (hn : keys.length ≤ 20)
      (hitem : Number.IsOperand item) (hrange : value item < 0 ∨ keys.length < value item) :
      Refused (encode keys.length :: (keys ++ item :: rest)) .signatureCount
  /-- There are not as many signatures. -/
  | noSignature {keys : List Bytes} {k : Nat} {rest : Stack} (hn : keys.length ≤ 20)
      (hk : k ≤ keys.length) (hrest : rest.length < k) :
      Refused (encode keys.length :: (keys ++ encode k :: rest)) .badStackOperation
  /-- There is no item below the signatures. -/
  | noDummy {keys signatures : List Bytes} (hn : keys.length ≤ 20)
      (hk : signatures.length ≤ keys.length) :
      Refused (encode keys.length :: (keys ++ encode signatures.length :: signatures))
        .badStackOperation

/-- **A stack has the operands of the check on top, or it is refused.** -/
theorem operands_or_refused (s : Stack) :
    (∃ keys signatures dummy base, s = operands keys signatures dummy base ∧
      signatures.length ≤ keys.length ∧ keys.length ≤ 20) ∨ ∃ fault, Refused s fault := by
  -- from the top down: what is needed next is missing, wrong, or there and taken off
  obtain _ | ⟨item, s⟩ := s
  · exact .inr ⟨_, .noKeyCount⟩
  obtain hitem | ⟨hitem, hrange⟩ | ⟨n, hn, rfl⟩ := Number.isOperand_cases item 20
  · exact .inr ⟨_, .badKeyCount hitem⟩
  · exact .inr ⟨_, .keyCount hitem hrange⟩
  obtain hfew | ⟨keys, s, rfl, rfl⟩ := Stack.exists_append_or_lt s n
  · exact .inr ⟨_, .noKey hn hfew⟩
  obtain _ | ⟨item, s⟩ := s
  · rw [List.append_nil]
    exact .inr ⟨_, .noSignatureCount hn⟩
  obtain hitem | ⟨hitem, hrange⟩ | ⟨k, hk, rfl⟩ := Number.isOperand_cases item keys.length
  · exact .inr ⟨_, .badSignatureCount hn hitem⟩
  · exact .inr ⟨_, .signatureCount hn hitem hrange⟩
  obtain hfew | ⟨signatures, s, rfl, rfl⟩ := Stack.exists_append_or_lt s k
  · exact .inr ⟨_, .noSignature hn hk hfew⟩
  obtain _ | ⟨dummy, base⟩ := s
  · rw [List.append_nil]
    exact .inr ⟨_, .noDummy hn hk⟩
  · refine .inl ⟨keys.reverse, signatures.reverse, dummy, base, ?_, ?_, ?_⟩
    · simp only [operands, List.length_reverse, List.reverse_reverse]
    · simpa using hk
    · simpa using hn

/-- What the check finds out about keys and signatures in the order in which they were pushed. -/
def signed (m : Machine) (keys signatures : List Bytes) : Bool :=
  Multisig.accepts (m.primitives.signedBy · · m.digest.bytes) keys.reverse signatures.reverse

variable {m : Machine} {s : State} {keys signatures : List Bytes} {dummy : Bytes} {base : Stack}

/-- The signatures fit to the keys just if they do so in the order in which they were pushed. -/
theorem signed_iff_fits : m.signed keys signatures = true ↔
    Multisig.Fits (m.primitives.signedBy · · m.digest.bytes) signatures keys := by
  rw [signed, Multisig.accepts_iff_fits, Multisig.fits_reverse_iff]

theorem checkSignatures_operands (hn : keys.length ≤ 20) (hk : signatures.length ≤ keys.length) :
    m.checkSignatures (operands keys signatures dummy base) =
      .ok (m.signed keys signatures) base := by
  have hkeys := Stack.popMany_append keys.reverse
    (encode signatures.length :: (signatures.reverse ++ dummy :: base))
  have hsignatures := Stack.popMany_append signatures.reverse (dummy :: base)
  rw [List.length_reverse] at hkeys hsignatures
  have hkeyCount := Stack.popCount_encode hn (Int.ofNat_le.2 hn) .keyCount
    (keys.reverse ++ encode signatures.length :: (signatures.reverse ++ dummy :: base))
  have hsignatureCount := Stack.popCount_encode (hk.trans hn) (Int.ofNat_le.2 hk) .signatureCount
    (signatures.reverse ++ dummy :: base)
  have hmost : maxKeys = ((20 : Nat) : Int) := rfl
  simp only [checkSignatures, operands, Effect.bind_apply, hmost, hkeyCount, hkeys,
    hsignatureCount, hsignatures, Stack.pop, Effect.pure_apply, signed]

theorem checkSignatures_of_refused {stack : Stack} {fault : Fault} (h : Refused stack fault) :
    ∃ rest, m.checkSignatures stack = .error fault rest := by
  have hkeyCount : ∀ {n : Nat}, n ≤ 20 → ∀ rest,
      Stack.popCount maxKeys .keyCount (encode n :: rest) = .ok n rest := fun hn rest =>
    Stack.popCount_encode hn (Int.ofNat_le.2 hn) .keyCount rest
  cases h with
  | noKeyCount => exact ⟨_, rfl⟩
  | @badKeyCount item rest hitem =>
    refine ⟨rest, ?_⟩
    simp only [checkSignatures, Effect.bind_apply, Stack.popCount_cons, if_neg hitem]
  | @keyCount item rest hitem hrange =>
    have hrange : value item < 0 ∨ maxKeys < value item := hrange
    refine ⟨rest, ?_⟩
    simp only [checkSignatures, Effect.bind_apply, Stack.popCount_cons, if_pos hitem,
      if_pos hrange]
  | @noKey n rest hn hrest =>
    refine ⟨[], ?_⟩
    simp only [checkSignatures, Effect.bind_apply, hkeyCount hn, Stack.popMany_of_lt hrest]
  | @noSignatureCount keys hn =>
    have hkeys := Stack.popMany_append keys []
    rw [List.append_nil] at hkeys
    refine ⟨[], ?_⟩
    simp only [checkSignatures, Effect.bind_apply, hkeyCount hn, hkeys, Stack.popCount_nil]
  | @badSignatureCount keys item rest hn hitem =>
    refine ⟨rest, ?_⟩
    simp only [checkSignatures, Effect.bind_apply, hkeyCount hn, Stack.popMany_append,
      Stack.popCount_cons, if_neg hitem]
  | @signatureCount keys item rest hn hitem hrange =>
    refine ⟨rest, ?_⟩
    simp only [checkSignatures, Effect.bind_apply, hkeyCount hn, Stack.popMany_append,
      Stack.popCount_cons, if_pos hitem, if_pos hrange]
  | @noSignature keys k rest hn hk hrest =>
    refine ⟨[], ?_⟩
    simp only [checkSignatures, Effect.bind_apply, hkeyCount hn, Stack.popMany_append,
      Stack.popCount_encode (hk.trans hn) (Int.ofNat_le.2 hk), Stack.popMany_of_lt hrest]
  | @noDummy keys signatures hn hk =>
    have hsignatures := Stack.popMany_append signatures []
    rw [List.append_nil] at hsignatures
    refine ⟨[], ?_⟩
    simp only [checkSignatures, Effect.bind_apply, hkeyCount hn, Stack.popMany_append,
      Stack.popCount_encode (hk.trans hn) (Int.ofNat_le.2 hk), hsignatures, Stack.pop]

/-! ### The step -/

theorem ask_operands (hcapacity : m.rules.capacity = some Stack.maxItems) (hn : keys.length ≤ 20)
    (hk : signatures.length ≤ keys.length) (hbase : base.length < Stack.maxItems) :
    m.ask .checkMultisig (operands keys signatures dummy base) =
      .ok () (Number.ofBool (m.signed keys signatures) :: base) := by
  simp only [ask, Effect.bind_apply, checkSignatures_operands hn hk, hcapacity,
    Stack.pushTruth_eq_ok hbase]

theorem reads_checkMultisig (h : m.code[s.pc]? = some 0xae) :
    m.Reads s (.operation .checkMultisig) :=
  reads_of_getElem? h

theorem obey_checkMultisig (hexecuting : s.isExecuting = true)
    (hcount : s.opCount < maxOperations) :
    m.obey (.operation .checkMultisig) (s.behind (.operation .checkMultisig)) =
      Effect.mainResult { s with pc := s.pc + 1, opCount := s.opCount + 1 }
        (m.ask .checkMultisig s.main) :=
  obey_of_mainAction? rfl trivial trivial hexecuting fun _ => hcount

/-- **The check of several signatures.**  A machine that comes to the word for it and has the
operands on its stack leaves the answer in their place: whether the signatures have an assignment,
in the order in which they and the keys were pushed.  On any other stack it fails with the fault
that the stack is refused with.  The items are not too many for that as long as a machine runs
(`Limits.length_le_of_running`). -/
theorem step_checkMultisig {primitives : Primitives} {digest : Digest} {code : Bytes}
    (hload : Machine.load primitives digest code = .ok m) (hs : s.status = .running)
    (hexecuting : s.isExecuting = true) (hbyte : m.code[s.pc]? = some 0xae)
    (hcount : s.opCount < maxOperations) :
    (∀ keys signatures dummy base, s.main = operands keys signatures dummy base →
      signatures.length ≤ keys.length → keys.length ≤ 20 →
      s.main.length + s.alt.length ≤ Stack.maxItems →
        ∃ answer, m.step s = .ok () { s with
            pc := s.pc + 1, main := Number.ofBool answer :: base, opCount := s.opCount + 1 } ∧
          (answer = true ↔ ∃ f : Fin signatures.length → Fin keys.length, StrictMono f ∧
            ∀ i, primitives.signedBy keys[f i] signatures[i] digest.bytes = true)) ∧
      (∀ fault, Refused s.main fault → ∃ t, m.step s = .error fault t) ∧
      ((∃ keys signatures dummy base, s.main = operands keys signatures dummy base ∧
        signatures.length ≤ keys.length ∧ keys.length ≤ 20) ∨ ∃ fault, Refused s.main fault) := by
  obtain ⟨-, hdigest, hprimitives, -⟩ := of_load hload
  have hreads := reads_checkMultisig hbyte
  have hobey := obey_checkMultisig (m := m) hexecuting hcount
  refine ⟨fun keys signatures dummy base hmain hk hn hroom => ?_, fun fault hrefused => ?_,
    operands_or_refused s.main⟩
  · -- the operands are three items at least, so there is room for the answer
    have hbase : base.length + 3 ≤ s.main.length := by
      rw [hmain]
      simp only [operands, List.length_cons, List.length_append]
      omega
    rw [hmain, ask_operands (capacity_of_load hload) hn hk (by omega)] at hobey
    refine ⟨m.signed keys signatures, step_of_reads_ok hs hreads hobey ?_, ?_⟩
    · simp only [List.length_cons]
      omega
    · rw [signed_iff_fits, hdigest, hprimitives, Multisig.fits_iff_exists_strictMono]
  · obtain ⟨rest, hcheck⟩ := checkSignatures_of_refused (m := m) hrefused
    have hask : m.ask .checkMultisig s.main = .error fault rest := by
      simp only [ask, Effect.bind_apply, hcheck]
    rw [hask] at hobey
    exact ⟨_, step_of_reads_error hs hreads hobey⟩

/-- Two signatures, in the order of their keys and in the other order; and twenty-one keys are too
many.  The keys are those of the secret numbers one and two, and the signatures have the nonce
one. -/
theorem step_checkMultisig_twoOrders :
    let x := Curve.generator.x
    let first := PublicKey.write Curve.generator
    let second := Bytes.ofNatBE 33
      0x02c6047f9441ed7d6d3045406e95c07cd85c778e4b8cef3ca7abac09b95c709ee5
    let ofFirst := Der.write x x ++ [0x01]
    let ofSecond := Der.write x (2 * x % Curve.n) ++ [0x83]
    ∃ m t, Machine.load .standard .zero [0xae] = .ok m ∧
      m.step { main := operands [first, second] [ofFirst, ofSecond] [0x05] [[0x09]] } =
        .ok () { pc := 1, main := [[0x01], [0x09]], opCount := 1 } ∧
      m.step { main := operands [first, second] [ofSecond, ofFirst] [0x05] [[0x09]] } =
        .ok () { pc := 1, main := [[], [0x09]], opCount := 1 } ∧
      m.step { main := [[0x15]] } = .error .keyCount t := by
  intro x first second ofFirst ofSecond
  have hload : Machine.load .standard .zero [0xae] = .ok _ := load_eq (by decide)
  have hsigned : Primitives.standard.signedBy first ofFirst Digest.zero.bytes = true ∧
      Primitives.standard.signedBy second ofFirst Digest.zero.bytes = false ∧
      Primitives.standard.signedBy first ofSecond Digest.zero.bytes = false ∧
      Primitives.standard.signedBy second ofSecond Digest.zero.bytes = true := by
    decide +kernel
  -- nothing else is needed of the bytes, which would else be unfolded below
  clear_value first second ofFirst ofSecond
  have hcount : 0 < maxOperations := by decide
  obtain ⟨hinOrder, -, -⟩ := step_checkMultisig
    (s := { main := operands [first, second] [ofFirst, ofSecond] [0x05] [[0x09]] })
    hload rfl rfl rfl hcount
  obtain ⟨houtOfOrder, -, -⟩ := step_checkMultisig
    (s := { main := operands [first, second] [ofSecond, ofFirst] [0x05] [[0x09]] })
    hload rfl rfl rfl hcount
  obtain ⟨-, hrefused, -⟩ :=
    step_checkMultisig (s := { main := [[0x15]] }) hload rfl rfl rfl hcount
  obtain ⟨yes, hyes, hyesIff⟩ :=
    hinOrder _ _ _ _ rfl (by simp) (by simp) (by simp [operands, Stack.maxItems])
  obtain ⟨no, hno, hnoIff⟩ :=
    houtOfOrder _ _ _ _ rfl (by simp) (by simp) (by simp [operands, Stack.maxItems])
  obtain rfl : yes = true :=
    hyesIff.2 ⟨id, strictMono_id, by simp [Fin.forall_fin_two, hsigned]⟩
  obtain rfl : no = false := by
    refine Bool.eq_false_iff.2 fun hanswer => ?_
    obtain ⟨f : Fin 2 → Fin 2, hf : StrictMono f, hfits⟩ := hnoIff.1 hanswer
    -- the signature that comes first is not for the first key, and no key is before that
    have hlt : f 0 < f 1 := hf (by decide)
    have hzero : f 0 = 0 := by omega
    have hfirst := hfits 0
    simp [hzero, hsigned] at hfirst
  obtain ⟨t, hfault⟩ := hrefused .keyCount (.keyCount (by decide) (by decide))
  exact ⟨_, t, hload, hyes, hno, hfault⟩

end Machine

end SpendScript
