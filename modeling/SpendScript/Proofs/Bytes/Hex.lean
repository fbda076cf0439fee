import Mathlib.Tactic.SplitIfs
import SpendScript.Bytes.Hex

/-!
# Hexadecimal text that is written

Bytes and numbers are written in lowercase digits only (`Hex.IsDigit`).

* `Hex.isDigit_of_mem_digits`, `Hex.isDigit_of_mem_ofNatPadded` : what bytes and numbers are written
  in;
* `Hex.ofNatPadded_inj` : no two numbers have the same digits, however many zeros stand in front.
-/

namespace SpendScript

namespace Hex

/-- The character is written for a number below sixteen. -/
def IsDigit (c : Char) : Prop :=
  ∃ n < 16, c = digit n

variable {c : Char} {n : Nat} {bytes : Bytes}

/-! ### What is written -/

theorem isDigit_digit (h : n < 16) : IsDigit (digit n) := ⟨n, h, rfl⟩

theorem isDigit_digitChar (h : n < 16) : IsDigit n.digitChar := by
  have hall : ∀ n < 16, n.digitChar = digit n := by decide
  exact ⟨n, h, hall n h⟩

theorem isDigit_of_mem_digits (h : c ∈ digits bytes) : IsDigit c := by
  obtain ⟨b, -, hc⟩ := List.mem_flatMap.1 h
  have hb := b.toNat_lt
  simp only [ofByte, List.mem_cons, List.not_mem_nil, or_false] at hc
  rcases hc with rfl | rfl
  · exact isDigit_digit (by omega)
  · exact isDigit_digit (by omega)

theorem isDigit_of_mem_ofNat (h : c ∈ ofNat n) : IsDigit c := by
  induction n using Nat.strongRecOn with
  | ind n ih =>
    rw [ofNat, Nat.toDigits_eq_if (by decide)] at h
    split_ifs at h with hn
    · rw [List.mem_singleton.1 h]
      exact isDigit_digitChar hn
    · rcases List.mem_append.1 h with hfront | hlast
      · exact ih (n / 16) (by omega) hfront
      · rw [List.mem_singleton.1 hlast]
        exact isDigit_digitChar (by omega)

theorem isDigit_of_mem_ofNatPadded {width : Nat} (h : c ∈ ofNatPadded width n) : IsDigit c := by
  rcases List.mem_append.1 h with hzero | hdigits
  · rw [List.eq_of_mem_replicate hzero]
    exact ⟨0, by decide, by decide⟩
  · exact isDigit_of_mem_ofNat hdigits

/-! ### Numbers -/

/-- The number that some digits spell. -/
def spelled (text : List Char) : Nat :=
  text.foldl (fun n c => 16 * n + (digitValue? (UInt8.ofNat c.toNat)).getD 0) 0

theorem spelled_concat (text : List Char) (c : Char) :
    spelled (text ++ [c]) = 16 * spelled text + (digitValue? (UInt8.ofNat c.toNat)).getD 0 := by
  simp [spelled]

theorem spelled_ofNat (n : Nat) : spelled (ofNat n) = n := by
  have hdigit : ∀ n < 16, (digitValue? (UInt8.ofNat n.digitChar.toNat)).getD 0 = n := by decide
  induction n using Nat.strongRecOn with
  | ind n ih =>
    rw [ofNat, Nat.toDigits_eq_if (by decide)]
    split_ifs with hn
    · rw [← List.nil_append [n.digitChar], spelled_concat, hdigit n hn]
      exact Nat.zero_add n
    · have hfront : spelled (Nat.toDigits 16 (n / 16)) = n / 16 := ih (n / 16) (by omega)
      rw [spelled_concat, hfront, hdigit (n % 16) (by omega)]
      omega

theorem spelled_replicate_append (k : Nat) (text : List Char) :
    spelled (List.replicate k '0' ++ text) = spelled text := by
  induction k with
  | zero => rfl
  | succ k ih => exact ih

theorem spelled_ofNatPadded (width n : Nat) : spelled (ofNatPadded width n) = n := by
  rw [ofNatPadded, spelled_replicate_append, spelled_ofNat]

/-- **No two numbers have the same digits**, even with zeros in front. -/
theorem ofNatPadded_inj {width a b : Nat} : ofNatPadded width a = ofNatPadded width b ↔ a = b := by
  constructor
  · intro h
    have hspelled := congrArg spelled h
    rwa [spelled_ofNatPadded, spelled_ofNatPadded] at hspelled
  · rintro rfl
    rfl

end Hex

end SpendScript
