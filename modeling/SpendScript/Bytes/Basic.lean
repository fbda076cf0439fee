/-!
# Byte strings and the numbers they spell

A byte string is a list of bytes, first byte first.  It spells a natural number in two ways: with
the least significant byte first (`Bytes.toNatLE`, used by numbers on the stack and by push
lengths) or last (`Bytes.toNatBE`, used by keys, signatures and digests).

* `Bytes.toNatLE_ofNatLE` : a number that fits into `w` bytes reads back from them.
* `Bytes.toNatLE_digitsLE` : every number reads back from its digits.
-/

namespace SpendScript

/-- A byte string, first byte first. -/
abbrev Bytes := List UInt8

namespace Bytes

/-- The number a byte string spells, least significant byte first. -/
def toNatLE : Bytes → Nat
  | [] => 0
  | b :: rest => b.toNat + 256 * toNatLE rest

/-- The number a byte string spells, most significant byte first. -/
def toNatBE (bytes : Bytes) : Nat :=
  bytes.foldl (fun n b => 256 * n + b.toNat) 0

/-- The least number that does not fit into `width` bytes. -/
def bound : (width : Nat) → Nat
  | 0 => 1
  | width + 1 => 256 * bound width

/-- The `width` low bytes of a number, least significant byte first. -/
def ofNatLE : (width n : Nat) → Bytes
  | 0, _ => []
  | width + 1, n => UInt8.ofNat (n % 256) :: ofNatLE width (n / 256)

/-- The `width` low bytes of a number, most significant byte first. -/
def ofNatBE (width n : Nat) : Bytes :=
  (ofNatLE width n).reverse

/-- The fewest bytes that spell a number, least significant byte first; none for zero. -/
def digitsLE (n : Nat) : Bytes :=
  if n = 0 then [] else UInt8.ofNat (n % 256) :: digitsLE (n / 256)
termination_by n

/-- The fewest bytes that spell a number, most significant byte first; none for zero. -/
def digitsBE (n : Nat) : Bytes :=
  (digitsLE n).reverse

@[simp] theorem length_ofNatLE (width n : Nat) : (ofNatLE width n).length = width := by
  induction width generalizing n with
  | zero => rfl
  | succ width ih => simp [ofNatLE, ih]

@[simp] theorem length_ofNatBE (width n : Nat) : (ofNatBE width n).length = width := by
  simp [ofNatBE]

theorem toNatLE_ofNatLE {width n : Nat} (h : n < bound width) :
    toNatLE (ofNatLE width n) = n := by
  induction width generalizing n with
  | zero =>
    simp only [bound] at h
    simp only [ofNatLE, toNatLE]
    omega
  | succ width ih =>
    simp only [bound] at h
    have hq : n / 256 < bound width := by omega
    have hb : n % 256 % 2 ^ 8 = n % 256 := by omega
    simp only [ofNatLE, toNatLE, ih hq, UInt8.toNat_ofNat', hb]
    omega

theorem toNatLE_digitsLE (n : Nat) : toNatLE (digitsLE n) = n := by
  induction n using Nat.strongRecOn with
  | ind n ih =>
    rw [digitsLE]
    split
    · simp_all [toNatLE]
    · have hb : n % 256 % 2 ^ 8 = n % 256 := by omega
      simp only [toNatLE, UInt8.toNat_ofNat', hb, ih (n / 256) (by omega)]
      omega

end Bytes

end SpendScript
