import SpendScript.Proofs.Number.SignMagnitude

/-!
# Numbers and their items

Numbers and minimal items determine each other, and an item of at most eight bytes can be read in
signed words of 64 bits: its bytes are shifted side by side into a word, the sign bit is cleared,
and the word is negated (`Number.wordValue?`).  Neither a shift nor the negation overflows.

* `Number.wordValue?_eq_some` : words compute the value of an item;
* `Number.codec` : what is written reads back, what is read is written as its shortest item, and
  how many bytes that takes.
-/

namespace SpendScript

namespace Number

open Bytes (bound toNatLE)

/-- The item spells the number in sign and magnitude: the empty item spells zero, and of any other
the bits below the sign spell the magnitude. -/
def Spells (item : Bytes) (n : Int) : Prop :=
  item = [] ∧ n = 0 ∨ ∃ digits negative low, low.toNat < 128 ∧
    item = digits ++ [signed negative low] ∧ n = ofSign negative (toNatLE (digits ++ [low]))

/-! ### Words -/

/-- A word moved up by some bytes, unless the word has no bits so high. -/
def shift? (word : Int64) (places : Nat) : Option Int64 :=
  if 8 * places < 64 then some (.ofBitVec (word.toBitVec <<< (8 * places))) else none

/-- The negative of a word, unless that is no word. -/
def negate? (word : Int64) : Option Int64 :=
  if word = Int64.minValue then none else some (-word)

/-- Puts bytes into a word, the first of them at a place and the others above it. -/
def pack? (place : Nat) (word : Int64) : Bytes → Option Int64
  | [] => some word
  | b :: rest => do
    let high ← shift? (Int64.ofNat b.toNat) place
    pack? (place + 1) (word ||| high) rest

/-- The value of an item, computed in words, unless a shift or the negation overflows. -/
def wordValue? (item : Bytes) : Option Int64 := do
  let word ← pack? 0 0 item
  if item.getLast?.any (128 ≤ ·.toNat) then
    let sign ← shift? 0x80 (item.length - 1)
    negate? (word &&& ~~~sign)
  else return word

variable {item : Bytes} {word : Int64} {n : Int} {width place k : Nat}

theorem spells_iff : Spells item n ↔ value item = n := by
  constructor
  · rintro (⟨rfl, rfl⟩ | ⟨digits, negative, low, hlow, rfl, rfl⟩)
    · rfl
    · exact value_signed hlow
  · rintro rfl
    rcases List.eq_nil_or_concat item with rfl | ⟨digits, last, rfl⟩
    · exact .inl ⟨rfl, rfl⟩
    · obtain ⟨negative, low, hlow, rfl⟩ := exists_signed last
      rw [List.concat_eq_append]
      exact .inr ⟨digits, negative, low, hlow, rfl, value_signed hlow⟩

theorem toInt_of_lt (h : word.toBitVec.toNat < 2 ^ 63) : word.toInt = word.toBitVec.toNat := by
  rw [Int64.toInt, BitVec.toInt_eq_toNat_cond, if_pos (by omega)]

theorem toNat_or_shift {b : UInt8} (hplace : place < 8)
    (hword : word.toBitVec.toNat < bound place) :
    (word ||| .ofBitVec ((Int64.ofNat b.toNat).toBitVec <<< (8 * place))).toBitVec.toNat =
      word.toBitVec.toNat + bound place * b.toNat := by
  have hb := b.toNat_lt
  have hbyte : (Int64.ofNat b.toNat).toBitVec.toNat = b.toNat := by simp
  have hlt : b.toNat * 2 ^ (8 * place) < 2 ^ 64 := by
    calc b.toNat * 2 ^ (8 * place) < 2 ^ 8 * 2 ^ (8 * place) :=
        Nat.mul_lt_mul_of_pos_right hb (Nat.two_pow_pos _)
      _ = 2 ^ (8 + 8 * place) := (Nat.pow_add ..).symm
      _ ≤ 2 ^ 64 := Nat.pow_le_pow_right (by decide) (by omega)
  rw [Bytes.bound_eq_two_pow] at hword ⊢
  rw [Int64.toBitVec_or, Int64.toBitVec_ofBitVec, BitVec.toNat_or, BitVec.toNat_shiftLeft, hbyte,
    Nat.shiftLeft_eq, Nat.mod_eq_of_lt hlt, Nat.or_comm, ← Nat.shiftLeft_eq,
    ← Nat.shiftLeft_add_eq_or_of_lt hword, Nat.shiftLeft_eq, Nat.add_comm, Nat.mul_comm]

/-- **Bytes side by side in a word spell what they spell as a byte string.** -/
theorem pack?_eq_some (place : Nat) (item : Bytes) (hplace : place + item.length ≤ 8)
    (hword : word.toBitVec.toNat < bound place) :
    ∃ packed, pack? place word item = some packed ∧
      packed.toBitVec.toNat = word.toBitVec.toNat + bound place * toNatLE item := by
  induction item generalizing place word with
  | nil => exact ⟨word, rfl, by simp [toNatLE]⟩
  | cons b rest ih =>
    rw [List.length_cons] at hplace
    have hb := b.toNat_lt
    have hmul : bound place * b.toNat ≤ bound place * 255 := Nat.mul_le_mul_left _ (by omega)
    have hor := toNat_or_shift (b := b) (by omega) hword
    have hshift : shift? (Int64.ofNat b.toNat) place =
        some (.ofBitVec ((Int64.ofNat b.toNat).toBitVec <<< (8 * place))) := if_pos (by omega)
    obtain ⟨packed, hpacked, hvalue⟩ := ih (place + 1) (by omega) (by
      rw [hor, bound]
      omega)
    refine ⟨packed, ?_, ?_⟩
    · rw [pack?, hshift]
      exact hpacked
    · have hrest : bound place * (256 * toNatLE rest) = bound (place + 1) * toNatLE rest := by
        rw [bound, Nat.mul_left_comm, Nat.mul_assoc]
      rw [hvalue, hor, toNatLE, Nat.mul_add, hrest, Nat.add_assoc]

theorem toNat_and_not {x y : BitVec 64} (hy : y.toNat = 2 ^ k) (hlower : 2 ^ k ≤ x.toNat)
    (hupper : x.toNat < 2 ^ (k + 1)) : (x &&& ~~~y).toNat = x.toNat - 2 ^ k := by
  obtain ⟨r, hr⟩ := Nat.exists_eq_add_of_le hlower
  have hlt : r < 2 ^ k := by
    rw [Nat.pow_succ] at hupper
    omega
  rw [hr, Nat.add_sub_cancel_left]
  refine Nat.eq_of_testBit_eq fun i => ?_
  rw [BitVec.testBit_toNat, BitVec.getLsbD_and, BitVec.getLsbD_not, ← BitVec.testBit_toNat,
    ← BitVec.testBit_toNat, hr, hy, Nat.testBit_two_pow]
  rcases Nat.lt_trichotomy i k with hi | rfl | hi
  · -- below the bit nothing changes
    have hk : k < 64 := (Nat.pow_lt_pow_iff_right (by decide)).1 (Nat.lt_of_le_of_lt hlower x.isLt)
    rw [Nat.testBit_two_pow_add_gt hi, decide_eq_true (Nat.lt_trans hi hk),
      decide_eq_false (Nat.ne_of_gt hi)]
    simp
  · -- the bit itself is cleared
    rw [Nat.testBit_lt_two_pow hlt]
    simp
  · -- above the bit there is none
    have hr_lt : r < 2 ^ i := Nat.lt_trans hlt (Nat.pow_lt_pow_right (by decide) hi)
    have hx_lt : 2 ^ k + r < 2 ^ i := by
      have hle : 2 ^ (k + 1) ≤ 2 ^ i := Nat.pow_le_pow_right (by decide) hi
      omega
    rw [Nat.testBit_lt_two_pow hr_lt, Nat.testBit_lt_two_pow hx_lt]
    simp

theorem shift?_sign (h : place < 8) :
    ∃ sign, shift? 0x80 place = some sign ∧ sign.toBitVec.toNat = signBit (place + 1) := by
  have hlt : 128 * 2 ^ (8 * place) < 2 ^ 64 := by
    calc 128 * 2 ^ (8 * place) = 2 ^ (7 + 8 * place) := (Nat.pow_add 2 7 _).symm
      _ < 2 ^ 64 := Nat.pow_lt_pow_right (by decide) (by omega)
  refine ⟨_, if_pos (by omega), ?_⟩
  have hbyte : (0x80 : Int64).toBitVec.toNat = 128 := by decide
  rw [Int64.toBitVec_ofBitVec, BitVec.toNat_shiftLeft, hbyte, Nat.shiftLeft_eq,
    Nat.mod_eq_of_lt hlt, signBit, Nat.add_sub_cancel, Bytes.bound_eq_two_pow]

theorem negate?_of_lt (word : Int64) (h : word.toBitVec.toNat < 2 ^ 63) :
    ∃ negated, negate? word = some negated ∧ negated.toInt = -(word.toBitVec.toNat : Int) := by
  have hword := toInt_of_lt h
  have hne : word ≠ Int64.minValue := by
    rintro rfl
    exact absurd h (by decide)
  refine ⟨-word, if_neg hne, ?_⟩
  rw [Int64.toInt_neg, hword, Int.bmod_eq_of_le (by omega) (by omega)]

theorem toNat_clear_sign {digits : Bytes} {low : UInt8} {packed sign : Int64}
    (hlow : low.toNat < 128)
    (hpacked : packed.toBitVec.toNat = toNatLE (digits ++ [signed true low]))
    (hsign : sign.toBitVec.toNat = signBit (digits.length + 1)) :
    (packed &&& ~~~sign).toBitVec.toNat = toNatLE (digits ++ [low]) := by
  have hmagnitude := toNatLE_concat_lt_signBit digits hlow
  have hsum : packed.toBitVec.toNat =
      signBit (digits.length + 1) + toNatLE (digits ++ [low]) := by
    rw [hpacked, Bytes.toNatLE_concat, Bytes.toNatLE_concat, toNat_signed hlow, signBit,
      Nat.add_sub_cancel, if_pos rfl, Nat.mul_add]
    omega
  have hpow : signBit (digits.length + 1) = 2 ^ (8 * (digits.length + 1) - 1) :=
    signBit_eq_two_pow (Nat.succ_pos _)
  generalize 8 * (digits.length + 1) - 1 = k at hpow
  rw [Int64.toBitVec_and, Int64.toBitVec_not,
    toNat_and_not (hsign.trans hpow) (by omega) (by rw [Nat.pow_succ]; omega), ← hpow, hsum,
    Nat.add_sub_cancel_left]

theorem any_getLast?_signed {low : UInt8} (hlow : low.toNat < 128) (digits : Bytes)
    (negative : Bool) :
    (digits ++ [signed negative low]).getLast?.any (128 ≤ ·.toNat) = negative := by
  simp only [List.getLast?_concat, Option.any_some, toNat_signed hlow]
  cases negative
  · simpa using hlow
  · simp

/-- **Words compute the value of an item of at most eight bytes**, and nothing overflows. -/
theorem wordValue?_eq_some (h : item.length ≤ 8) :
    ∃ word, wordValue? item = some word ∧ word.toInt = value item := by
  have hzero : (0 : Int64).toBitVec.toNat < bound 0 := by decide
  obtain ⟨packed, hpacked, hspelt⟩ := pack?_eq_some 0 item (by omega) hzero
  have hspelt : packed.toBitVec.toNat = toNatLE item := by
    rw [hspelt]
    simp [bound]
  rcases List.eq_nil_or_concat item with rfl | ⟨digits, last, rfl⟩
  · exact ⟨0, rfl, rfl⟩
  · obtain ⟨negative, low, hlow, rfl⟩ := exists_signed last
    rw [List.concat_eq_append] at h hpacked hspelt ⊢
    have hplace : digits.length < 8 := by
      rw [List.length_append, List.length_singleton] at h
      omega
    have hmagnitude : toNatLE (digits ++ [low]) < 2 ^ 63 :=
      Nat.lt_of_lt_of_le (toNatLE_concat_lt_signBit digits hlow) (signBit_mono (k := 8) (by omega))
    have hlength : (digits ++ [signed negative low]).length - 1 = digits.length := by simp
    rw [wordValue?, hpacked, Option.bind_eq_bind, Option.bind_some,
      any_getLast?_signed hlow digits negative, hlength, value_signed hlow]
    cases negative with
    | false =>
      -- the word holds the magnitude
      refine ⟨packed, rfl, ?_⟩
      rw [toInt_of_lt (by rw [hspelt]; exact hmagnitude), hspelt]
      rfl
    | true =>
      -- the word holds the sign bit and the magnitude
      obtain ⟨sign, hshift, hsign⟩ := shift?_sign hplace
      have hcleared := toNat_clear_sign hlow hspelt hsign
      obtain ⟨negated, hnegate, hvalue⟩ := negate?_of_lt (packed &&& ~~~sign)
        (by rw [hcleared]; exact hmagnitude)
      refine ⟨negated, ?_, ?_⟩
      · rw [if_pos rfl, hshift]
        exact hnegate
      · rw [hvalue, hcleared]
        rfl

/-! ### Numbers and items -/

theorem decode?_of_le (minimal : Bool) (h : item.length ≤ min width maxWidth) :
    decode? item minimal width = if minimal && !isMinimal item then none else some (value item) :=
  if_neg (Nat.not_lt.2 h)

theorem decode?_encode (n : Int) (minimal : Bool) (width : Nat) :
    decode? (encode n) minimal width =
      if (encode n).length ≤ min width maxWidth then some n else none := by
  by_cases h : (encode n).length ≤ min width maxWidth
  · rw [if_pos h, decode?_of_le minimal h, isMinimal_encode, value_encode]
    simp
  · rw [if_neg h, decode?, if_pos (Nat.not_le.1 h)]

/-- A number of 64 bits needs nine bytes if it is the least one, and no more than eight else. -/
theorem length_encode_toInt (v : Int64) :
    (encode v.toInt).length ≤ 9 ∧ ((encode v.toInt).length = 9 ↔ v = Int64.minValue) := by
  have hlower := v.le_toInt
  have hupper := v.toInt_lt
  have hnine : (encode v.toInt).length ≤ 9 ↔ v.toInt.natAbs < 128 * 256 ^ 8 :=
    length_encode_le_iff (by decide)
  have height : (encode v.toInt).length ≤ 8 ↔ v.toInt.natAbs < 128 * 256 ^ 7 :=
    length_encode_le_iff (by decide)
  rw [← Int64.toInt_inj, Int64.toInt_minValue]
  omega

/-- **Numbers and minimal items determine each other.**  A number of 64 bits reads back from what
it is written as, if that is not too long to be read, and the length is known.  An item that is not
too long is read as the number it spells, words compute that number without an overflow, and no
item that spells it is shorter than what it is written as; so the item itself is minimal, and is
read where minimal items are asked for, iff it is what the number is written as. -/
theorem codec (v : Int64) (minimal : Bool) (width : Nat) (item : Bytes) :
    (decode? (encode v.toInt) minimal width =
        if (encode v.toInt).length ≤ min width 8 then some v.toInt else none) ∧
      (∀ k, 1 ≤ k → k ≤ 8 →
        ((encode v.toInt).length ≤ k ↔ v.toInt.natAbs ≤ 2 ^ (8 * k - 1) - 1)) ∧
      (encode v.toInt).length ≤ 9 ∧ ((encode v.toInt).length = 9 ↔ v = Int64.minValue) ∧
      (item.length ≤ min width 8 → ∃ word : Int64,
        Spells item word.toInt ∧
        wordValue? item = some word ∧
        decode? item false width = some word.toInt ∧
        (isMinimal item = true ↔ encode word.toInt = item) ∧
        (decode? item true width = if encode word.toInt = item then some word.toInt else none) ∧
        ∀ other, Spells other word.toInt → (encode word.toInt).length ≤ other.length) := by
  obtain ⟨hnine, hleast⟩ := length_encode_toInt v
  refine ⟨decode?_encode _ _ _, fun k hk _ => ?_, hnine, hleast, fun h => ?_⟩
  · have hpos := Nat.two_pow_pos (8 * k - 1)
    rw [length_encode_le_iff hk, signBit_eq_two_pow hk]
    omega
  · obtain ⟨word, hword, hvalue⟩ := wordValue?_eq_some (Nat.le_trans h (Nat.min_le_right _ _))
    refine ⟨word, spells_iff.2 hvalue.symm, hword, ?_, ?_, ?_, fun other hother => ?_⟩
    · rw [decode?_of_le false h, hvalue]
      simp
    · rw [hvalue, encode_value_eq_iff]
    · rw [decode?_of_le true h, hvalue, Bool.true_and]
      by_cases hminimal : isMinimal item = true
      · rw [if_pos ((encode_value_eq_iff item).2 hminimal), hminimal]
        simp
      · rw [if_neg (mt (encode_value_eq_iff item).1 hminimal), Bool.eq_false_iff.2 hminimal]
        simp
    · rw [← spells_iff.1 hother]
      exact length_encode_value_le other

/-- Zero with a sign in eight bytes is read as zero, but not where minimal items are asked for. -/
theorem codec_negativeZero :
    ([0, 0, 0, 0, 0, 0, 0, 0x80] : Bytes).length ≤ min 9 8 ∧
      wordValue? [0, 0, 0, 0, 0, 0, 0, 0x80] = some 0 ∧
      decode? [0, 0, 0, 0, 0, 0, 0, 0x80] false 9 = some 0 ∧
      decode? [0, 0, 0, 0, 0, 0, 0, 0x80] true 9 = none ∧
      decode? (encode Int64.minValue.toInt) true 9 = none := by
  have hlength : ([0, 0, 0, 0, 0, 0, 0, 0x80] : Bytes).length ≤ min 9 8 := by decide
  obtain ⟨hleast, -, -, hnine, hitem⟩ :=
    codec Int64.minValue true 9 [0, 0, 0, 0, 0, 0, 0, 0x80]
  obtain ⟨word, -, hword, hread, -, hstrict, -⟩ := hitem hlength
  have hzero : wordValue? [0, 0, 0, 0, 0, 0, 0, 0x80] = some 0 := by decide +kernel
  obtain rfl : word = 0 := Option.some.inj (hword.symm.trans hzero)
  have hencode : encode (0 : Int64).toInt = [] := encode_zero
  rw [hencode, if_neg (by simp)] at hstrict
  rw [hnine.2 rfl, if_neg (by decide)] at hleast
  exact ⟨hlength, hzero, hread, hstrict, hleast⟩

end Number

end SpendScript
