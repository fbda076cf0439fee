import SpendScript.Proofs.Bytes.HexCase

/-!
# Hexadecimal text that is refused

A text is judged by its bytes, so that a character beyond ASCII counts as several of them and none
is a digit.  An odd number of bytes is blamed first, then the first byte that is no digit.

* `Hex.length_textBytes` : the bytes of a text are those of its UTF-8 form;
* `Hex.decode_eq_error_iff` : a text is refused with the error that blames it (`Hex.Blames`).
-/

namespace SpendScript

namespace Hex

variable {text : List Char} {error : Error} {b : UInt8} {bytes before after : Bytes}

/-- What is said about a text that spells no bytes. -/
inductive Blames (text : List Char) : Error → Prop
  /-- The number of its bytes is odd. -/
  | oddLength (h : (String.ofList text).utf8ByteSize % 2 = 1) : Blames text .oddLength
  /-- Their number is even, and this is the first that is no digit. -/
  | badDigit {before after : Bytes} {b : UInt8}
      (heven : (String.ofList text).utf8ByteSize % 2 = 0)
      (htext : textBytes text = before ++ b :: after)
      (hbefore : ∀ d ∈ before, IsEitherDigit (Char.ofUInt8 d))
      (hb : ¬ IsEitherDigit (Char.ofUInt8 b)) : Blames text (.badDigit b before.length)

theorem length_textBytes (text : List Char) :
    (textBytes text).length = (String.ofList text).utf8ByteSize :=
  List.size_toByteArray.symm

theorem isNone_digitValue? :
    (digitValue? b).isNone = decide (¬ IsEitherDigit (Char.ofUInt8 b)) := by
  have hchar : (Char.ofUInt8 b).toNat = b.toNat := UInt8.toNat_toUInt32 b
  rw [Bool.eq_iff_iff, decide_eq_true_iff, isEitherDigit_iff_toNat, hchar, digitValue?]
  split_ifs <;> simp only [Option.isNone_some, Option.isNone_none] <;> grind

theorem findIdx?_append_cons (hbefore : ∀ d ∈ before, IsEitherDigit (Char.ofUInt8 d))
    (hb : ¬ IsEitherDigit (Char.ofUInt8 b)) :
    (before ++ b :: after).findIdx? (fun b => (digitValue? b).isNone) = some before.length := by
  have hnone : before.findIdx? (fun b => (digitValue? b).isNone) = none := by
    rw [List.findIdx?_eq_none_iff]
    intro d hd
    rw [isNone_digitValue?, decide_eq_false (not_not.2 (hbefore d hd))]
  rw [List.findIdx?_append, hnone, Option.none_or, List.findIdx?_cons, isNone_digitValue?,
    decide_eq_true hb]
  simp

theorem getD_append_cons (before : Bytes) (b : UInt8) (after : Bytes) :
    (before ++ b :: after).getD before.length 0 = b := by
  simp

theorem exists_eq_append_cons {i : Nat}
    (h : bytes.findIdx? (fun b => (digitValue? b).isNone) = some i) :
    ∃ before b after, bytes = before ++ b :: after ∧ before.length = i ∧
      (∀ d ∈ before, IsEitherDigit (Char.ofUInt8 d)) ∧ ¬ IsEitherDigit (Char.ofUInt8 b) := by
  obtain ⟨hi, hnone, hfirst⟩ := List.findIdx?_eq_some_iff_getElem.1 h
  simp only [isNone_digitValue?, decide_eq_true_iff, not_not] at hnone hfirst
  refine ⟨bytes.take i, bytes[i], bytes.drop (i + 1), ?_, ?_, ?_, hnone⟩
  · rw [List.getElem_cons_drop, List.take_append_drop]
  · rw [List.length_take]
    omega
  · intro d hd
    obtain ⟨j, hj, rfl⟩ := List.mem_take_iff_getElem.1 hd
    exact hfirst j (by omega)

/-- **A text is refused with the error that blames it.** -/
theorem decode_eq_error_iff : decode text = .error error ↔ Blames text error := by
  rw [decode, decodeBytes, length_textBytes]
  constructor
  · intro h
    split_ifs at h with hodd
    · rw [← Except.error.inj h]
      exact .oddLength hodd
    · split at h
      · rename_i i hi
        obtain ⟨before, b, after, htext, rfl, hbefore, hb⟩ := exists_eq_append_cons hi
        rw [htext, getD_append_cons] at h
        rw [← Except.error.inj h]
        exact .badDigit (by omega) htext hbefore hb
      · exact absurd h (by simp)
  · intro h
    cases h with
    | oddLength hodd => rw [if_pos hodd]
    | badDigit heven htext hbefore hb =>
      rw [if_neg (by omega), htext, findIdx?_append_cons hbefore hb]
      simp only [getD_append_cons]

end Hex

end SpendScript
