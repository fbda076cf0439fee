import Mathlib.Data.List.Basic
import Mathlib.Tactic.SplitIfs
import SpendScript.Bytes.Hex

/-!
# Hexadecimal text of either case

Bytes are read from digits of either case, which may be mixed (`Hex.Spells`).

* `Hex.decode_eq_ok_iff` : a text is read as some bytes iff it spells them;
* `Hex.exists_spells_iff` : a text spells some bytes iff it is an even number of digits;
* `Hex.decode_digits` : a byte string reads back from the digits that it is written in.
-/

namespace SpendScript

namespace Hex

/-- The character is a digit of either case. -/
def IsEitherDigit (c : Char) : Prop :=
  ('0' ≤ c ∧ c ≤ '9') ∨ ('a' ≤ c ∧ c ≤ 'f') ∨ ('A' ≤ c ∧ c ≤ 'F')

instance (c : Char) : Decidable (IsEitherDigit c) :=
  inferInstanceAs (Decidable (_ ∨ _))

/-- The text is the digits of the bytes, apart from case. -/
def Spells (text : List Char) (bytes : Bytes) : Prop :=
  text.map Char.toLower = digits bytes

instance (text : List Char) (bytes : Bytes) : Decidable (Spells text bytes) :=
  inferInstanceAs (Decidable (_ = _))

/-- The halves of the bytes, each high half first. -/
def halves (bytes : Bytes) : List Nat :=
  bytes.flatMap fun b => [b.toNat / 16, b.toNat % 16]

variable {c : Char} {text : List Char} {bytes : Bytes} {n : Nat}

theorem digits_eq_map_halves (bytes : Bytes) : digits bytes = (halves bytes).map digit := by
  rw [digits, halves, List.map_flatMap]
  rfl

theorem lt_of_mem_halves (h : n ∈ halves bytes) : n < 16 := by
  obtain ⟨b, -, hn⟩ := List.mem_flatMap.1 h
  have hb := b.toNat_lt
  simp only [List.mem_cons, List.not_mem_nil, or_false] at hn
  omega

/-! ### Characters -/

theorem toNat_toLower (c : Char) :
    c.toLower.toNat = if 65 ≤ c.toNat ∧ c.toNat ≤ 90 then c.toNat + 32 else c.toNat := by
  have hupper : (c.val ≥ 'A'.val ∧ c.val ≤ 'Z'.val) ↔ 65 ≤ c.toNat ∧ c.toNat ≤ 90 := Iff.rfl
  unfold Char.toLower
  by_cases h : c.val ≥ 'A'.val ∧ c.val ≤ 'Z'.val
  · have hle : c.val.toNat ≤ 90 := (hupper.1 h).2
    have hshift : ('a'.val - 'A'.val).toNat = 32 := rfl
    rw [dif_pos h, if_pos (hupper.1 h)]
    show (c.val + ('a'.val - 'A'.val)).toNat = c.val.toNat + 32
    rw [UInt32.toNat_add, hshift]
    omega
  · rw [dif_neg h, if_neg (hupper.not.1 h)]

theorem toNat_digit (h : n < 16) : (digit n).toNat = if n < 10 then 48 + n else 87 + n := by
  have hall : ∀ n < 16, (digit n).toNat = if n < 10 then 48 + n else 87 + n := by decide
  exact hall n h

theorem toLower_eq_digit_iff (hn : n < 16) : c.toLower = digit n ↔
    (n < 10 ∧ c.toNat = 48 + n) ∨ (10 ≤ n ∧ (c.toNat = 87 + n ∨ c.toNat = 55 + n)) := by
  rw [← Char.toNat_inj, toNat_toLower, toNat_digit hn]
  split_ifs <;> omega

theorem isEitherDigit_iff_toNat : IsEitherDigit c ↔ (48 ≤ c.toNat ∧ c.toNat ≤ 57) ∨
    (97 ≤ c.toNat ∧ c.toNat ≤ 102) ∨ (65 ≤ c.toNat ∧ c.toNat ≤ 70) :=
  Iff.rfl

theorem isEitherDigit_iff : IsEitherDigit c ↔ ∃ n < 16, c.toLower = digit n := by
  rw [isEitherDigit_iff_toNat]
  constructor
  · rintro (h | h | h)
    · have hn : c.toNat - 48 < 16 := by omega
      exact ⟨c.toNat - 48, hn, (toLower_eq_digit_iff hn).2 (by omega)⟩
    · have hn : c.toNat - 87 < 16 := by omega
      exact ⟨c.toNat - 87, hn, (toLower_eq_digit_iff hn).2 (by omega)⟩
    · have hn : c.toNat - 55 < 16 := by omega
      exact ⟨c.toNat - 55, hn, (toLower_eq_digit_iff hn).2 (by omega)⟩
  · rintro ⟨n, hn, h⟩
    rw [toLower_eq_digit_iff hn] at h
    omega

theorem utf8EncodeChar_of_lt (h : c.toNat < 128) :
    String.utf8EncodeChar c = [UInt8.ofNat c.toNat] := by
  unfold String.utf8EncodeChar
  exact if_pos (Nat.le_of_lt_succ h)

theorem digitValue?_eq_none {b : UInt8} (h : 128 ≤ b.toNat) : digitValue? b = none := by
  unfold digitValue?
  simp only
  rw [if_neg (by omega), if_neg (by omega), if_neg (by omega)]

/-- Beyond the first 128 characters, the bytes of a character are no digits. -/
theorem exists_mem_utf8EncodeChar (h : 128 ≤ c.toNat) :
    ∃ b ∈ String.utf8EncodeChar c, digitValue? b = none := by
  have hlead : ∃ first rest, String.utf8EncodeChar c = first :: rest ∧ 128 ≤ first.toNat := by
    have hc : ¬ c.val.toNat ≤ 0x7f := Nat.not_le.2 h
    unfold String.utf8EncodeChar
    simp only [if_neg hc]
    split_ifs
    all_goals
      refine ⟨_, _, rfl, ?_⟩
      rw [UInt8.toNat_ofNat']
      omega
  obtain ⟨first, rest, hbytes, hfirst⟩ := hlead
  exact ⟨first, by rw [hbytes]; exact List.mem_cons_self, digitValue?_eq_none hfirst⟩

theorem digitValue?_ofNat_iff (hc : c.toNat < 128) (hn : n < 16) :
    digitValue? (UInt8.ofNat c.toNat) = some n ↔ c.toLower = digit n := by
  have hbyte : (UInt8.ofNat c.toNat).toNat = c.toNat :=
    UInt8.toNat_ofNat_of_lt' (Nat.lt_trans hc (by decide))
  rw [toLower_eq_digit_iff hn, digitValue?]
  simp only [hbyte]
  split_ifs
  · rw [Option.some.injEq]
    omega
  · rw [Option.some.injEq]
    omega
  · rw [Option.some.injEq]
    omega
  · rw [false_iff]
    omega

/-! ### Texts -/

theorem map_digitValue?_textBytes_iff {values : List Nat} (hvalues : ∀ n ∈ values, n < 16) :
    (textBytes text).map digitValue? = values.map some ↔
      text.map Char.toLower = values.map digit := by
  induction text generalizing values with
  | nil => cases values <;> simp [textBytes]
  | cons c text ih =>
    have hcons : textBytes (c :: text) = String.utf8EncodeChar c ++ textBytes text := rfl
    rw [hcons, List.map_append]
    by_cases hc : c.toNat < 128
    · rw [utf8EncodeChar_of_lt hc]
      cases values with
      | nil => simp
      | cons n values =>
        obtain ⟨hn, hvalues⟩ := List.forall_mem_cons.1 hvalues
        simp only [List.map_cons, List.map_nil, List.singleton_append, List.cons.injEq,
          digitValue?_ofNat_iff hc hn, ih hvalues]
    · -- neither side holds: a byte of the character is no digit, and the character is none
      obtain ⟨b, hb, hnone⟩ := exists_mem_utf8EncodeChar (Nat.not_lt.1 hc)
      refine iff_of_false (fun h => ?_) (fun h => ?_)
      · have hmem : none ∈ values.map some := by
          rw [← h, ← hnone]
          exact List.mem_append_left _ (List.mem_map_of_mem hb)
        simp at hmem
      · cases values with
        | nil => exact absurd h (by simp)
        | cons n values =>
          have hn : n < 16 := hvalues n List.mem_cons_self
          rw [List.map_cons, List.map_cons, List.cons.injEq, toLower_eq_digit_iff hn] at h
          omega

/-- An even number of values are the halves of some bytes. -/
theorem exists_halves_eq : ∀ {values : List Nat}, (∀ n ∈ values, n < 16) →
    values.length % 2 = 0 → ∃ bytes, halves bytes = values
  | [], _, _ => ⟨[], rfl⟩
  | [_], _, heven => absurd heven (by simp)
  | high :: low :: values, hvalues, heven => by
    obtain ⟨hhigh, hvalues⟩ := List.forall_mem_cons.1 hvalues
    obtain ⟨hlow, hvalues⟩ := List.forall_mem_cons.1 hvalues
    have hrest : values.length % 2 = 0 := by
      simp only [List.length_cons] at heven
      omega
    obtain ⟨bytes, rfl⟩ := exists_halves_eq hvalues hrest
    have hbyte : (UInt8.ofNat (16 * high + low)).toNat = 16 * high + low := by
      rw [UInt8.toNat_ofNat']
      omega
    refine ⟨UInt8.ofNat (16 * high + low) :: bytes, ?_⟩
    have hcons : halves (UInt8.ofNat (16 * high + low) :: bytes) =
        (16 * high + low) / 16 :: (16 * high + low) % 16 :: halves bytes := by
      simp only [halves, List.flatMap_cons, hbyte, List.cons_append, List.nil_append]
    rw [hcons]
    congr 2 <;> omega

theorem length_halves (bytes : Bytes) : (halves bytes).length = 2 * bytes.length := by
  induction bytes with
  | nil => rfl
  | cons b bytes ih =>
    have hcons : (halves (b :: bytes)).length = (halves bytes).length + 2 := rfl
    rw [hcons, ih, List.length_cons]
    omega

theorem exists_map_eq {α β : Type} {f : α → β} {g : Nat → β} {l : List α}
    (h : ∀ a ∈ l, ∃ n < 16, f a = g n) :
    ∃ values : List Nat, (∀ n ∈ values, n < 16) ∧ l.map f = values.map g := by
  induction l with
  | nil => exact ⟨[], by simp, rfl⟩
  | cons a l ih =>
    obtain ⟨⟨n, hn, ha⟩, hl⟩ := List.forall_mem_cons.1 h
    obtain ⟨values, hvalues, hmap⟩ := ih hl
    exact ⟨n :: values, List.forall_mem_cons.2 ⟨hn, hvalues⟩, by rw [List.map_cons, ha, hmap]; rfl⟩

theorem pairs_of_map_eq {text : Bytes} (h : text.map digitValue? = (halves bytes).map some)
    (read : Bytes) : pairs read text = read.reverse ++ bytes := by
  induction bytes generalizing text read with
  | nil =>
    obtain rfl := List.map_eq_nil_iff.1 h
    simp [pairs]
  | cons b bytes ih =>
    have hcons : halves (b :: bytes) = b.toNat / 16 :: b.toNat % 16 :: halves bytes := rfl
    rw [hcons, List.map_cons, List.map_cons] at h
    obtain ⟨high, text, rfl, hhigh, h⟩ := List.map_eq_cons_iff.1 h
    obtain ⟨low, text, rfl, hlow, h⟩ := List.map_eq_cons_iff.1 h
    have hhalves : 16 * (b.toNat / 16) + b.toNat % 16 = b.toNat := by omega
    rw [pairs, hhigh, hlow, Option.getD_some, Option.getD_some, hhalves, UInt8.ofNat_toNat, ih h,
      List.reverse_cons, List.append_assoc, List.singleton_append]

theorem digitValue?_lt {b : UInt8} (h : digitValue? b = some n) : n < 16 := by
  unfold digitValue? at h
  simp only at h
  split_ifs at h <;> obtain rfl := Option.some.inj h <;> omega

theorem decodeBytes_eq_ok_iff {text : Bytes} :
    decodeBytes text = .ok bytes ↔ text.map digitValue? = (halves bytes).map some := by
  unfold decodeBytes
  constructor
  · intro h
    split_ifs at h with hodd
    split at h
    · exact absurd h (by simp)
    · rename_i hvalid
      rw [List.findIdx?_eq_none_iff] at hvalid
      have hvalues : ∀ b ∈ text, ∃ n < 16, digitValue? b = some n := by
        intro b hb
        obtain ⟨n, hn⟩ := Option.isSome_iff_exists.1 (Option.isNone_eq_false_iff.1 (hvalid b hb))
        exact ⟨n, digitValue?_lt hn, hn⟩
      obtain ⟨values, hlt, hmap⟩ := exists_map_eq hvalues
      have hlength := congrArg List.length hmap
      rw [List.length_map, List.length_map] at hlength
      obtain ⟨read, rfl⟩ := exists_halves_eq hlt (by omega)
      have hpairs := pairs_of_map_eq hmap []
      rw [List.reverse_nil, List.nil_append] at hpairs
      rwa [← Except.ok.inj h, hpairs]
  · intro h
    have hlength := congrArg List.length h
    rw [List.length_map, List.length_map, length_halves] at hlength
    have hvalid : text.findIdx? (fun b => (digitValue? b).isNone) = none := by
      rw [List.findIdx?_eq_none_iff]
      intro b hb
      have hmem : digitValue? b ∈ (halves bytes).map some := h ▸ List.mem_map_of_mem hb
      obtain ⟨n, -, hn⟩ := List.mem_map.1 hmem
      rw [← hn]
      rfl
    rw [if_neg (by omega), hvalid]
    exact congrArg Except.ok (pairs_of_map_eq h [])

/-- **A text is read as some bytes iff it spells them.** -/
theorem decode_eq_ok_iff : decode text = .ok bytes ↔ Spells text bytes := by
  rw [decode, decodeBytes_eq_ok_iff, map_digitValue?_textBytes_iff fun n => lt_of_mem_halves,
    Spells, digits_eq_map_halves]

/-- **A text spells some bytes iff it is an even number of digits.** -/
theorem exists_spells_iff :
    (∃ bytes, Spells text bytes) ↔ (∀ c ∈ text, IsEitherDigit c) ∧ text.length % 2 = 0 := by
  simp only [Spells, digits_eq_map_halves]
  constructor
  · rintro ⟨bytes, h⟩
    constructor
    · intro c hc
      have hmem : c.toLower ∈ (halves bytes).map digit := h ▸ List.mem_map_of_mem hc
      obtain ⟨n, hn, hdigit⟩ := List.mem_map.1 hmem
      exact isEitherDigit_iff.2 ⟨n, lt_of_mem_halves hn, hdigit.symm⟩
    · have hlength := congrArg List.length h
      rw [List.length_map, List.length_map, length_halves] at hlength
      omega
  · rintro ⟨hdigits, heven⟩
    obtain ⟨values, hlt, hmap⟩ := exists_map_eq fun c hc => isEitherDigit_iff.1 (hdigits c hc)
    have hlength := congrArg List.length hmap
    rw [List.length_map, List.length_map] at hlength
    obtain ⟨bytes, rfl⟩ := exists_halves_eq hlt (by omega)
    exact ⟨bytes, hmap⟩

theorem spells_digits (bytes : Bytes) : Spells (digits bytes) bytes := by
  have hdigit : ∀ n < 16, (digit n).toLower = digit n := by decide
  rw [Spells, digits_eq_map_halves, List.map_map]
  refine List.map_congr_left fun n hn => ?_
  exact hdigit n (lt_of_mem_halves hn)

/-- **A byte string reads back from its digits.** -/
theorem decode_digits (bytes : Bytes) : decode (digits bytes) = .ok bytes :=
  decode_eq_ok_iff.2 (spells_digits bytes)

theorem length_digits (bytes : Bytes) : (digits bytes).length = 2 * bytes.length := by
  rw [digits_eq_map_halves, List.length_map, length_halves]

theorem length_of_decode (h : decode text = .ok bytes) : text.length = 2 * bytes.length := by
  rw [← length_digits, ← decode_eq_ok_iff.1 h, List.length_map]

theorem length_le_of_decode (h : decode text = .ok bytes) : bytes.length ≤ 4 * text.length := by
  rw [length_of_decode h]
  omega

end Hex

end SpendScript
