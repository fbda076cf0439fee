import SpendScript.Crypto.ScriptSignature
import SpendScript.Proofs.Source.Spaced
import SpendScript.Proofs.Spend.Straight

/-!
# Spends to the hash of a key

An output that names the hash of a key asks the spender for a key with this hash and for a signature
that belongs to the key.  Whatever bytes the spender gives for them, the answer is that of the
signature check if the key has the hash, and else the question about equality fails.

* `Machine.straight_keyHashCheck` : what the output makes of a signature and a key;
* `Spend.evaluate_keyHash` : the evaluation of such a spend.
-/

namespace SpendScript

open Instruction (Pushes pushOf)
open Stack (maxItems maxItemSize)

namespace Machine

variable {m : Machine} {signature key hash : Bytes}

/-- The instructions that ask for a key with a hash and for a signature that belongs to the key. -/
def keyHashCheck (hash : Bytes) : List Instruction :=
  [.operation (.shuffle .dup), .operation (.hash .hash160), pushOf hash,
    .operation (.verified .equal), .operation .checkSig]

theorem light_keyHashCheck (hhash : hash.length ≤ maxItemSize) :
    Instruction.Light (keyHashCheck hash) (9 + maxItemSize) 4 := by
  have hfirst : Instruction.Light
      [.operation (.shuffle .dup), .operation (.hash .hash160)] 2 2 :=
    (Instruction.light_operation fun _ => rfl).append (Instruction.light_operation fun _ => rfl)
  have hlast : Instruction.Light [.operation (.verified .equal), .operation .checkSig] 2 2 :=
    (Instruction.light_operation fun _ => rfl).append (Instruction.light_operation fun _ => rfl)
  have hlight := hfirst.append ((Instruction.pushes_pushOf hhash).light.append hlast)
  exact hlight.mono (by omega) (by omega)

theorem ask_checkSig (hcapacity : m.rules.capacity = some maxItems) {rest : Stack}
    (hroom : rest.length < maxItems) :
    m.ask .checkSig (key :: signature :: rest) =
      .ok () (Number.ofBool (m.primitives.signedBy key signature m.digest.bytes) :: rest) := by
  have htwo : 2 ≤ (key :: signature :: rest).length := by simp
  simp only [ask, checkSignature, Effect.bind_apply, Stack.require_of_le htwo, Stack.pop,
    Effect.pure_apply, hcapacity, Stack.pushTruth_eq_ok hroom]

/-- **What the output makes of a signature and a key.** -/
theorem straight_keyHashCheck (hcapacity : m.rules.capacity = some maxItems)
    (hkey : key.length ≤ maxItemSize) (hhash : hash.length ≤ maxItemSize)
    (hhash160 : (m.primitives.hash160 key).length ≤ maxItemSize) :
    answerOf (m.straight (keyHashCheck hash) [key, signature]) =
      if m.primitives.hash160 key = hash then
        .ok (m.primitives.signedBy key signature m.digest.bytes)
      else .error (.verified .equal) := by
  have hroom : ∀ s : Stack, s.length ≤ 3 → s.length < maxItems := by
    intro s h
    exact Nat.lt_of_le_of_lt h (by decide)
  -- the stack before and behind each instruction up to the comparison
  have hdup : Stack.shuffle m.rules.capacity .dup [key, signature] =
      .ok () [key, key, signature] := by
    rw [hcapacity]
    exact Stack.shuffle_dup (hroom _ (by simp)) hkey
  have hmap : Stack.mapTop m.rules.capacity (m.primitives.hash .hash160) [key, key, signature] =
      .ok () [m.primitives.hash160 key, key, signature] := by
    rw [hcapacity]
    exact Stack.mapTop_cons (hroom _ (by simp)) hhash160
  have hpush : Stack.push m.rules.capacity hash [m.primitives.hash160 key, key, signature] =
      .ok () [hash, m.primitives.hash160 key, key, signature] := by
    rw [hcapacity]
    exact Stack.push_eq_ok (hroom _ (by simp)) hhash
  have hequal : m.ask .equal [hash, m.primitives.hash160 key, key, signature] =
      .ok () [Number.ofBool (m.primitives.hash160 key == hash), key, signature] := by
    rw [ask, hcapacity]
    exact Stack.equal_cons_cons (hroom _ (by simp)) _ _
  have hverified : m.mainAction? (.operation (.verified .equal)) =
      some (m.ask .equal >>= fun _ => Stack.verifyTop (.verified .equal)) := rfl
  rw [keyHashCheck, straight_cons_of_ok rfl hdup, straight_cons_of_ok rfl hmap,
    straight_cons_of_ok ((Instruction.pushes_pushOf hhash).mainAction?_eq m) hpush,
    straight_cons hverified, Effect.bind_apply, Effect.bind_apply, hequal]
  simp only [Stack.verifyTop_ofBool, beq_iff_eq]
  split_ifs with heq
  · simp only []
    rw [straight_cons_of_ok rfl (ask_checkSig hcapacity (hroom _ (by simp)))]
    -- the answer of the signature check is left alone on the stack
    show Except.ok (Number.isTrue (Number.ofBool _)) = _
    rw [Number.isTrue_ofBool]
  · rfl

end Machine

namespace Spend

open Source (HasWords hexWord spaced)

/-- The words of the spend are a signature and a key, and those that ask for a key with the hash and
for a signature. -/
structure PaysKeyHash (spend : Spend) (signature key hash : Bytes) : Prop where
  /-- Neither text is too long. -/
  short : spend.ShortTexts
  /-- The text of the spender has a signature and a key. -/
  scriptSig : ∃ ds dk, Hex.Spells ds signature ∧ Hex.Spells dk key ∧
    HasWords spend.scriptSig.toList ['0' :: 'x' :: ds, '0' :: 'x' :: dk]
  /-- The text of the output has the hash. -/
  scriptPubKey : ∃ dh, Hex.Spells dh hash ∧ HasWords spend.scriptPubKey.toList
    ["OP_DUP".toList, "OP_HASH160".toList, '0' :: 'x' :: dh, "OP_EQUALVERIFY".toList,
      "OP_CHECKSIG".toList]

/-- Such a spend with a space between any two words. -/
def keyHash (signature key hash : Bytes) : Spend where
  scriptSig := spaced [hexWord signature, hexWord key]
  scriptPubKey := spaced ["OP_DUP", "OP_HASH160", hexWord hash, "OP_EQUALVERIFY", "OP_CHECKSIG"]

variable {signature key hash : Bytes}

theorem standsFor_keyHashCheck {dh : List Char} (hhash : hash.length ≤ maxItemSize)
    (hdh : Hex.Spells dh hash) :
    List.Forall₂ Token.StandsFor ["OP_DUP".toList, "OP_HASH160".toList, '0' :: 'x' :: dh,
      "OP_EQUALVERIFY".toList, "OP_CHECKSIG".toList] (Machine.keyHashCheck hash) :=
  .cons (Token.standsFor_operation rfl) <| .cons (Token.standsFor_operation rfl) <|
    .cons (Token.standsFor_data hdh hhash) <| .cons (Token.standsFor_operation rfl) <|
      .cons (Token.standsFor_operation rfl) .nil

theorem evaluate_of_paysKeyHash {spend : Spend} {primitives : Primitives} {digest : Digest}
    (hhash160 : ∀ item, (primitives.hash160 item).length = 20)
    (hsignature : signature.length ≤ maxItemSize) (hkey : key.length ≤ maxItemSize)
    (hhash : hash.length ≤ maxItemSize) (hspend : spend.PaysKeyHash signature key hash) :
    spend.evaluate primitives digest =
      if primitives.hash160 key = hash then
        .ok (primitives.signedBy key signature digest.bytes)
      else .error (.fault (.verified .equal)) := by
  obtain ⟨hshort, ⟨ds, dk, hds, hdk, hscriptSig⟩, dh, hdh, hscriptPubKey⟩ := hspend
  have hpushes : List.Forall₂ Pushes [pushOf signature, pushOf key] [signature, key] :=
    .cons (Instruction.pushes_pushOf hsignature) (.cons (Instruction.pushes_pushOf hkey) .nil)
  have hwords : List.Forall₂ Token.StandsFor
      (Source.words spend.scriptSig.toList ++ Source.words spend.scriptPubKey.toList)
      ([pushOf signature, pushOf key] ++ Machine.keyHashCheck hash) := by
    rw [Source.hasWords_iff.1 hscriptSig, Source.hasWords_iff.1 hscriptPubKey]
    exact .cons (Token.standsFor_data hds hsignature)
      (.cons (Token.standsFor_data hdk hkey) (standsFor_keyHashCheck hhash hdh))
  have hlight : Instruction.Light ([pushOf signature, pushOf key] ++ Machine.keyHashCheck hash)
      maxCodeSize maxOperations := by
    have hitems : ∀ item ∈ [signature, key], item.length ≤ maxItemSize := by
      simp [hsignature, hkey]
    exact ((Instruction.light_pushes hpushes hitems).append
      (Machine.light_keyHashCheck hhash)).mono (by simp [maxItemSize, maxCodeSize]) (by decide)
  obtain ⟨m, hprimitives, hdigest, hrules, hevaluate⟩ := evaluate_eq_straight primitives digest
    hshort hwords hlight
  have hcapacity : m.rules.capacity = some maxItems := by
    rw [hrules]
    rfl
  have hhashed : (m.primitives.hash160 key).length ≤ maxItemSize := by
    rw [hprimitives, hhash160]
    decide
  have hstart : m.straight [pushOf signature, pushOf key] [] = .ok () [key, signature] :=
    Machine.straight_pushes hcapacity hpushes (by simp [maxItems])
  rw [hevaluate, Machine.straight_append_of_ok hstart,
    Machine.straight_keyHashCheck hcapacity hkey hhash hhashed, hprimitives, hdigest]
  split_ifs <;> rfl

theorem paysKeyHash_keyHash (hsignature : signature.length ≤ maxItemSize)
    (hkey : key.length ≤ maxItemSize) (hhash : hash.length ≤ maxItemSize) :
    (keyHash signature key hash).PaysKeyHash signature key hash := by
  have hsig : ∀ word ∈ [hexWord signature, hexWord key],
      Source.IsPlain word ∧ word.length ≤ 2 + 2 * maxItemSize :=
    List.forall_mem_cons.2 ⟨Source.hexWord_spec hsignature,
      List.forall_mem_cons.2 ⟨Source.hexWord_spec hkey, by simp⟩⟩
  have hpub : ∀ word ∈ ["OP_DUP", "OP_HASH160", hexWord hash, "OP_EQUALVERIFY", "OP_CHECKSIG"],
      Source.IsPlain word ∧ word.length ≤ 2 + 2 * maxItemSize :=
    List.forall_mem_cons.2 ⟨by decide, List.forall_mem_cons.2 ⟨by decide,
      List.forall_mem_cons.2 ⟨Source.hexWord_spec hhash, by decide⟩⟩⟩
  obtain ⟨hsigWords, hsigLength⟩ := Source.spaced_spec hsig
  obtain ⟨hpubWords, hpubLength⟩ := Source.spaced_spec hpub
  simp only [List.map_cons, List.map_nil, Source.toList_hexWord] at hsigWords hpubWords
  have hmost : 5 * (2 + 2 * maxItemSize + 1) ≤ Source.maxLength := by decide
  exact ⟨⟨hsigLength.trans (Nat.le_trans (Nat.mul_le_mul_right _ (by simp)) hmost),
      hpubLength.trans hmost⟩,
    ⟨_, _, Hex.spells_digits signature, Hex.spells_digits key, hsigWords⟩,
    _, Hex.spells_digits hash, hpubWords⟩

/-- **Spends to the hash of a key.**  Whatever the cryptographic functions are, the answer is that
of the signature check if the key has the hash, and there is no other error than that it has not. -/
theorem evaluate_keyHash (primitives : Primitives) (digest : Digest)
    (hhash160 : ∀ item, (primitives.hash160 item).length = 20)
    (hsignature : signature.length ≤ maxItemSize) (hkey : key.length ≤ maxItemSize)
    (hhash : hash.length ≤ maxItemSize) :
    (∀ spend : Spend, spend.PaysKeyHash signature key hash →
      spend.evaluate primitives digest =
        if primitives.hash160 key = hash then
          .ok (primitives.signedBy key signature digest.bytes)
        else .error (.fault (.verified .equal))) ∧
    (keyHash signature key hash).PaysKeyHash signature key hash :=
  ⟨fun _ => evaluate_of_paysKeyHash hhash160 hsignature hkey hhash,
    paysKeyHash_keyHash hsignature hkey hhash⟩

/-- A key that has the hash, and a signature that belongs to it. -/
theorem evaluate_keyHash_signed :
    let key := Bytes.ofNatBE 33
      0x034f355bdcb7cc0af728ef3cceb9615d90684bb5b2ca5f859ab0f0b704075871aa
    let hash := Bytes.ofNatBE 20 0xfc7250a211deddc70ee5a2738de5f07817351cef
    let signature := Der.write 0xfc51ab9d7f93ba38b81390f8bd6e77bae76c803fbedbdb2d0a796e52e037d1ff
      0x72e42cd71a7bf79ae7d97f55729bb7a16a355230c5207b18749d9ad3447c0836 ++ [1]
    (keyHash signature key hash).evaluate .standard .zero = .ok true := by
  intro key hash signature
  have hkey : key.length ≤ maxItemSize := by simp [key, maxItemSize]
  have hhash : hash.length ≤ maxItemSize := by simp [hash, maxItemSize]
  obtain ⟨hevaluate, hpays⟩ := @evaluate_keyHash signature key hash .standard .zero
    (fun item => Ripemd160.length_hash _) (by decide +kernel) hkey hhash
  rw [hevaluate _ hpays, if_pos (by decide +kernel)]
  exact congrArg Except.ok (by decide +kernel)

end Spend

end SpendScript
