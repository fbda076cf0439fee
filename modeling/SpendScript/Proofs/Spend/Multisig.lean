import SpendScript.Crypto.ScriptSignature
import SpendScript.Proofs.Machine.CheckMultisig
import SpendScript.Proofs.Source.Spaced
import SpendScript.Proofs.Spend.Straight

/-!
# Spends to several keys

An output that names several keys asks the spender for some signatures, each of which belongs to one
of the keys.  If every signature belongs to one key only, the answer is whether the signatures come
in the order of their keys, with no two for the same key.

* `Machine.straight_multisig` : what the check makes of an empty item, signatures, keys and numbers;
* `Spend.evaluate_multisig` : the evaluation of such a spend.
-/

namespace SpendScript

open Instruction (Pushes)
open Number (encode)
open Stack (maxItems maxItemSize)

namespace Machine

variable {m : Machine} {signatures keys : List Bytes} {program : List Instruction}

/-- The items that a spender and an output push, in order. -/
def pushed (signatures keys : List Bytes) : List Bytes :=
  ([] :: signatures) ++ (encode signatures.length :: keys ++ [encode keys.length])

theorem reverse_pushed (signatures keys : List Bytes) :
    (pushed signatures keys).reverse = operands keys signatures [] [] := by
  simp [pushed, operands]

theorem length_pushed (signatures keys : List Bytes) :
    (pushed signatures keys).length = signatures.length + keys.length + 3 := by
  simp only [pushed, List.length_append, List.length_cons, List.length_nil]
  omega

/-- **What the check makes of the items.** -/
theorem straight_multisig (hcapacity : m.rules.capacity = some maxItems)
    (hn : keys.length ≤ 20) (hk : signatures.length ≤ keys.length)
    (hpushes : List.Forall₂ Pushes program (pushed signatures keys)) :
    answerOf (m.straight (program ++ [.operation .checkMultisig]) []) =
      .ok (m.signed keys signatures) := by
  have hroom : (pushed signatures keys).length + ([] : Stack).length ≤ maxItems := by
    rw [length_pushed]
    simp only [List.length_nil, maxItems]
    omega
  have hstart := straight_pushes hcapacity hpushes hroom
  rw [List.append_nil, reverse_pushed] at hstart
  have hask := @ask_operands m keys signatures [] [] hcapacity hn hk (by decide)
  rw [straight_append_of_ok hstart, straight_cons_of_ok rfl hask]
  show Except.ok (Number.isTrue (Number.ofBool _)) = _
  rw [Number.isTrue_ofBool]

theorem signed_iff_strictMono (i : Fin signatures.length → Fin keys.length)
    (h : ∀ a j,
      m.primitives.signedBy (keys.get a) (signatures.get j) m.digest.bytes = true ↔ a = i j) :
    m.signed keys signatures = true ↔ StrictMono i := by
  rw [signed_iff_fits, Multisig.fits_iff_exists_strictMono]
  constructor
  · rintro ⟨f, hmono, hf⟩
    have heq : f = i := by
      funext j
      exact (h _ _).1 (hf j)
    rwa [← heq]
  · intro hmono
    exact ⟨i, hmono, fun j => (h _ _).2 rfl⟩

end Machine

namespace Token

theorem forall₂_standsForPush {digits : List (List Char)} {items : List Bytes}
    (h : List.Forall₂ Hex.Spells digits items)
    (hitems : ∀ item ∈ items, item.length ≤ maxItemSize) :
    List.Forall₂ StandsForPush (digits.map fun ds => '0' :: 'x' :: ds) items := by
  induction h with
  | nil => exact .nil
  | cons hfirst _ ih =>
    rw [List.forall_mem_cons] at hitems
    exact .cons (standsForPush_data hfirst hitems.1) (ih hitems.2)

theorem standsForPush_count {word : List Char} {n : Nat} (h : Decimal word n) (hn : n ≤ 20) :
    StandsForPush word (encode n) := by
  refine standsForPush_number h ?_ ?_
  · simp only [minNumber]
    omega
  · simp only [maxNumber]
    omega

end Token

namespace Spend

open Source (HasWords hexWord spaced)
open Token (Decimal)

/-- The words of the spend are some signatures behind an empty item, and those that ask for
signatures that belong to the keys. -/
structure PaysMultisig (spend : Spend) (signatures keys : List Bytes) : Prop where
  /-- Neither text is too long. -/
  short : spend.ShortTexts
  /-- The text of the spender has the signatures. -/
  scriptSig : ∃ ds, List.Forall₂ Hex.Spells ds signatures ∧ HasWords spend.scriptSig.toList
    ("OP_0".toList :: ds.map fun digits => '0' :: 'x' :: digits)
  /-- The text of the output has the number of signatures, the keys and their number. -/
  scriptPubKey : ∃ k ds n, Decimal k signatures.length ∧ List.Forall₂ Hex.Spells ds keys ∧
    Decimal n keys.length ∧ HasWords spend.scriptPubKey.toList
      (k :: (ds.map fun digits => '0' :: 'x' :: digits) ++ [n, "OP_CHECKMULTISIG".toList])

/-- Such a spend with a space between any two words. -/
def multisig (signatures keys : List Bytes) : Spend where
  scriptSig := spaced ("OP_0" :: signatures.map hexWord)
  scriptPubKey := spaced (toString signatures.length :: keys.map hexWord ++
    [toString keys.length, "OP_CHECKMULTISIG"])

variable {signatures keys : List Bytes}

theorem exists_words (hn : keys.length ≤ 20) (hk : signatures.length ≤ keys.length)
    (hkeys : ∀ key ∈ keys, key.length ≤ maxItemSize)
    (hsignatures : ∀ signature ∈ signatures, signature.length ≤ maxItemSize) {spend : Spend}
    (hspend : spend.PaysMultisig signatures keys) :
    ∃ ws, Source.words spend.scriptSig.toList ++ Source.words spend.scriptPubKey.toList =
        ws ++ ["OP_CHECKMULTISIG".toList] ∧
      List.Forall₂ Token.StandsForPush ws (Machine.pushed signatures keys) := by
  obtain ⟨-, ⟨ds, hds, hscriptSig⟩, k, dk, n, hk', hdk, hn', hscriptPubKey⟩ := hspend
  -- the texts push the two halves of what the check looks at
  have hsig : List.Forall₂ Token.StandsForPush
      ("OP_0".toList :: ds.map fun digits => '0' :: 'x' :: digits) ([] :: signatures) :=
    .cons Token.standsForPush_empty (Token.forall₂_standsForPush hds hsignatures)
  have hkey : List.Forall₂ Token.StandsForPush
      (k :: (dk.map fun digits => '0' :: 'x' :: digits) ++ [n])
      (encode signatures.length :: keys ++ [encode keys.length]) :=
    List.rel_append
      (.cons (Token.standsForPush_count hk' (hk.trans hn)) (Token.forall₂_standsForPush hdk hkeys))
      (.cons (Token.standsForPush_count hn' hn) .nil)
  refine ⟨_, ?_, List.rel_append hsig hkey⟩
  rw [Source.hasWords_iff.1 hscriptSig, Source.hasWords_iff.1 hscriptPubKey]
  simp only [List.append_assoc, List.cons_append, List.nil_append]

/-- The longest item that such a spend pushes. -/
def maxPushed : Nat := 73

theorem length_pushed_le (hn : keys.length ≤ 20) (hk : signatures.length ≤ keys.length)
    (hkeys : ∀ key ∈ keys, key.length ≤ maxPushed)
    (hsignatures : ∀ signature ∈ signatures, signature.length ≤ maxPushed) :
    ∀ item ∈ Machine.pushed signatures keys, item.length ≤ maxPushed := by
  have hcount : ∀ n : Nat, n ≤ 20 → (encode n).length ≤ maxPushed := fun n hn =>
    (Number.isOperand_encode hn).1.trans (by decide)
  simp only [Machine.pushed, List.forall_mem_append, List.forall_mem_cons]
  exact ⟨⟨Nat.zero_le _, hsignatures⟩, ⟨hcount _ (hk.trans hn), hkeys⟩, hcount _ hn, by simp⟩

/-- **The answer is that of the check.** -/
theorem evaluate_of_paysMultisig {spend : Spend} (primitives : Primitives) (digest : Digest)
    (hn : keys.length ≤ 20) (hk : signatures.length ≤ keys.length)
    (hkeys : ∀ key ∈ keys, key.length ≤ maxPushed)
    (hsignatures : ∀ signature ∈ signatures, signature.length ≤ maxPushed)
    (hspend : spend.PaysMultisig signatures keys) :
    ∃ m : Machine, m.primitives = primitives ∧ m.digest = digest ∧
      spend.evaluate primitives digest = .ok (m.signed keys signatures) := by
  have hmost : maxPushed ≤ maxItemSize := by decide
  obtain ⟨ws, hwords, hstands⟩ := exists_words hn hk (fun key h => (hkeys key h).trans hmost)
    (fun signature h => (hsignatures signature h).trans hmost) hspend
  obtain ⟨program, hprogram, hpushes⟩ := Token.exists_program hstands
  have hlight : Instruction.Light (program ++ [.operation .checkMultisig]) maxCodeSize
      maxOperations := by
    have hitems := length_pushed_le hn hk hkeys hsignatures
    refine ((Instruction.light_pushes hpushes hitems).append
      (Instruction.light_operation fun _ => rfl)).mono ?_ (by decide)
    rw [Machine.length_pushed]
    simp only [maxPushed, maxCodeSize]
    omega
  have hstandsFor : List.Forall₂ Token.StandsFor
      (Source.words spend.scriptSig.toList ++ Source.words spend.scriptPubKey.toList)
      (program ++ [.operation .checkMultisig]) := by
    rw [hwords]
    exact List.rel_append hprogram (.cons (Token.standsFor_operation rfl) .nil)
  obtain ⟨m, hprimitives, hdigest, hrules, hevaluate⟩ :=
    evaluate_eq_straight primitives digest hspend.short hstandsFor hlight
  have hcapacity : m.rules.capacity = some maxItems := by
    rw [hrules]
    rfl
  refine ⟨m, hprimitives, hdigest, ?_⟩
  rw [hevaluate, Machine.straight_multisig hcapacity hn hk hpushes]
  rfl

/-! ### Texts with single spaces -/

theorem decimal_toString {n : Nat} (hn : n ≤ 20) :
    Decimal (toString n).toList n ∧ Source.IsPlain (toString n) ∧ (toString n).length ≤ 2 := by
  have htext : (toString n).toList = Nat.toDigits 10 n := String.toList_ofList
  have hall : ∀ n < 21, Nat.toDigits 10 n ≠ [] ∧
      ((Nat.toDigits 10 n).all fun c => c.isDigit && !Text.isBlank c) = true ∧
      Token.decimalValue (Nat.toDigits 10 n) = n ∧ '/' ∉ Nat.toDigits 10 n ∧
      (Nat.toDigits 10 n).length ≤ 2 := by
    decide +kernel
  obtain ⟨hne, hchars, hvalue, hslash, hlength⟩ := hall n (Nat.lt_succ_of_le hn)
  simp only [List.all_eq_true, Bool.and_eq_true, Bool.not_eq_true'] at hchars
  have hdecimal := Decimal.plain hne fun c hc => (hchars c hc).1
  rw [hvalue] at hdecimal
  rw [Source.IsPlain, ← String.length_toList, htext]
  exact ⟨hdecimal, ⟨⟨hne, fun c hc => (hchars c hc).2⟩, hslash⟩, hlength⟩

theorem paysMultisig_multisig (hn : keys.length ≤ 20) (hk : signatures.length ≤ keys.length)
    (hkeys : ∀ key ∈ keys, key.length ≤ maxPushed)
    (hsignatures : ∀ signature ∈ signatures, signature.length ≤ maxPushed) :
    (multisig signatures keys).PaysMultisig signatures keys := by
  have hhex : ∀ {items : List Bytes}, (∀ item ∈ items, item.length ≤ maxPushed) →
      ∀ word ∈ items.map hexWord, Source.IsPlain word ∧ word.length ≤ 2 + 2 * maxPushed := by
    intro items hitems word hword
    obtain ⟨item, hitem, rfl⟩ := List.mem_map.1 hword
    exact Source.hexWord_spec (hitems item hitem)
  have hcount : ∀ {n : Nat}, n ≤ 20 →
      Source.IsPlain (toString n) ∧ (toString n).length ≤ 2 + 2 * maxPushed := fun hn =>
    (decimal_toString hn).2.imp_right fun h => h.trans (by decide)
  have hsig : ∀ word ∈ "OP_0" :: signatures.map hexWord,
      Source.IsPlain word ∧ word.length ≤ 2 + 2 * maxPushed :=
    List.forall_mem_cons.2 ⟨by decide, hhex hsignatures⟩
  have hpub : ∀ word ∈ toString signatures.length :: keys.map hexWord ++
      [toString keys.length, "OP_CHECKMULTISIG"],
      Source.IsPlain word ∧ word.length ≤ 2 + 2 * maxPushed :=
    List.forall_mem_append.2 ⟨List.forall_mem_cons.2 ⟨hcount (hk.trans hn), hhex hkeys⟩,
      List.forall_mem_cons.2 ⟨hcount hn, by decide⟩⟩
  obtain ⟨hsigWords, hsigLength⟩ := Source.spaced_spec hsig
  obtain ⟨hpubWords, hpubLength⟩ := Source.spaced_spec hpub
  have hspells : ∀ items : List Bytes, List.Forall₂ Hex.Spells (items.map Hex.digits) items := by
    intro items
    rw [List.forall₂_map_left_iff, List.forall₂_same]
    exact fun item _ => Hex.spells_digits item
  have hwords : ∀ items : List Bytes, (items.map hexWord).map String.toList =
      (items.map Hex.digits).map fun digits => '0' :: 'x' :: digits := by
    intro items
    simp [Function.comp_def, Source.toList_hexWord]
  rw [List.map_cons, hwords] at hsigWords
  rw [List.map_append, List.map_cons, hwords] at hpubWords
  -- there are twenty-three words at most
  have hmost : 23 * (2 + 2 * maxPushed + 1) ≤ Source.maxLength := by decide
  have hbound : ∀ {n : Nat}, n ≤ 23 → n * (2 + 2 * maxPushed + 1) ≤ Source.maxLength :=
    fun h => Nat.le_trans (Nat.mul_le_mul_right _ h) hmost
  refine ⟨⟨hsigLength.trans (hbound ?_), hpubLength.trans (hbound ?_)⟩,
    ⟨_, hspells signatures, hsigWords⟩, _, _, _, (decimal_toString (hk.trans hn)).1, hspells keys,
    (decimal_toString hn).1, hpubWords⟩
  · rw [List.length_cons, List.length_map]
    omega
  · simp only [List.length_append, List.length_cons, List.length_map, List.length_nil]
    omega

/-- **Spends to several keys.**  If each signature belongs to one of the keys and to no other, the
answer is yes iff the signatures come in the order of the keys that they belong to, with no two for
one key, and else it is no. -/
theorem evaluate_multisig (primitives : Primitives) (digest : Digest) (keys signatures : List Bytes)
    (i : Fin signatures.length → Fin keys.length) (hn : keys.length ≤ 20)
    (hk : signatures.length ≤ keys.length)
    (hkeys : ∀ key ∈ keys, key.length = 33 ∨ key.length = 65)
    (hsignatures : ∀ signature ∈ signatures, signature.length ≤ 73)
    (hsigned : ∀ a j,
      primitives.signedBy (keys.get a) (signatures.get j) digest.bytes = true ↔ a = i j) :
    (∀ spend : Spend, spend.PaysMultisig signatures keys →
      (spend.evaluate primitives digest = .ok true ↔ StrictMono i) ∧
        (spend.evaluate primitives digest = .ok false ↔ ¬ StrictMono i)) ∧
    (multisig signatures keys).PaysMultisig signatures keys := by
  have hkeysLength : ∀ key ∈ keys, key.length ≤ maxPushed := by
    intro key hkey
    rcases hkeys key hkey with h | h <;> exact h ▸ by decide
  refine ⟨fun spend hspend => ?_, paysMultisig_multisig hn hk hkeysLength hsignatures⟩
  obtain ⟨m, hprimitives, hdigest, hevaluate⟩ :=
    evaluate_of_paysMultisig primitives digest hn hk hkeysLength hsignatures hspend
  rw [← hprimitives, ← hdigest] at hsigned
  have hanswer := Machine.signed_iff_strictMono i hsigned
  rw [hevaluate, Except.ok.injEq, Except.ok.injEq, ← hanswer, Bool.not_eq_true]
  exact ⟨Iff.rfl, Iff.rfl⟩

/-- Two signatures, in the order of their keys and in the other order. -/
theorem evaluate_multisig_twoOrders :
    let first := Bytes.ofNatBE 33
      0x023c72addb4fdf09af94f0c94d7fe92a386a7e70cf8a1d85916386bb2535c7b1b1
    let second := Bytes.ofNatBE 33
      0x034f355bdcb7cc0af728ef3cceb9615d90684bb5b2ca5f859ab0f0b704075871aa
    let ofFirst := Der.write 0x71af6bab217cb8d8c362f8105b80797cf75890007aedbd94ef6a1cb6cec390db
      0x1dbfb590ff9697f74e50120eb7fbf92b489c6eb6c42318551ca2a4a55eba6218 ++ [1]
    let ofSecond := Der.write 0xfc51ab9d7f93ba38b81390f8bd6e77bae76c803fbedbdb2d0a796e52e037d1ff
      0x72e42cd71a7bf79ae7d97f55729bb7a16a355230c5207b18749d9ad3447c0836 ++ [1]
    (multisig [ofFirst, ofSecond] [first, second]).evaluate .standard .zero = .ok true ∧
      (multisig [ofSecond, ofFirst] [first, second]).evaluate .standard .zero = .ok false := by
  intro first second ofFirst ofSecond
  have hsigned : Primitives.standard.signedBy first ofFirst Digest.zero.bytes = true ∧
      Primitives.standard.signedBy second ofFirst Digest.zero.bytes = false ∧
      Primitives.standard.signedBy first ofSecond Digest.zero.bytes = false ∧
      Primitives.standard.signedBy second ofSecond Digest.zero.bytes = true := by
    decide +kernel
  have hkeys : ∀ key ∈ [first, second], key.length = 33 ∨ key.length = 65 := by
    simp [first, second]
  have hinOrder : ∀ signature ∈ [ofFirst, ofSecond], signature.length ≤ 73 := by decide +kernel
  have houtOfOrder : ∀ signature ∈ [ofSecond, ofFirst], signature.length ≤ 73 := by decide +kernel
  -- nothing else is needed of the bytes, which would else be unfolded below
  clear_value first second ofFirst ofSecond
  obtain ⟨hanswer, hpays⟩ := evaluate_multisig .standard .zero [first, second] [ofFirst, ofSecond]
    id (by simp) (by simp) hkeys hinOrder
    (by simp [Fin.forall_fin_two, hsigned])
  obtain ⟨hanswer', hpays'⟩ := evaluate_multisig .standard .zero [first, second] [ofSecond, ofFirst]
    Fin.rev (by simp) (by simp) hkeys houtOfOrder
    (by simp [Fin.forall_fin_two, hsigned])
  have hrev : ¬ StrictMono (Fin.rev : Fin 2 → Fin 2) := by decide
  exact ⟨(hanswer _ hpays).1.2 strictMono_id, (hanswer' _ hpays').2.2 hrev⟩

end Spend

end SpendScript
