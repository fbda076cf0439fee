import SpendScript.Crypto.Der
import SpendScript.Proofs.Bytes.Digits

/-!
# Signatures are read as they are written

The bytes of a number are its digits, behind a zero if the first would read as a sign, and no fewer
bytes spell the number without reading as a negative one.  The numbers of a signature need at most
thirty-two digits.  Hence every length is below 128 and stands in one byte, so that a signature is
written in its distinguished form (`Der.distinguished_write`).  Reading drops the zeros in front,
and so comes back to the digits (`Der.dropWhile_integerBytes`).

* `Der.shortest_integerBytes` : the bytes of a number are the fewest;
* `Der.distinguished_write` : what is written of a signature, byte by byte;
* `Der.readInteger_tagged` : an integer is read as its bytes, and what follows is left;
* `Der.scalar?_integerBytes` : these bytes spell the number;
* `Der.read?_write` : so both numbers of a signature are read as they were written.
-/

namespace SpendScript

namespace Der

/-- The bytes spell the number, most significant byte first and without a sign, and no fewer bytes
do. -/
structure Shortest (n : Nat) (bytes : Bytes) : Prop where
  /-- They spell the number. -/
  toNatBE_eq : Bytes.toNatBE bytes = n
  /-- The first of them does not read as a sign. -/
  exists_first : ∃ first rest, bytes = first :: rest ∧ first < 0x80
  /-- Others that spell the number, and do not begin with a sign, are as many at least. -/
  length_le : ∀ first rest, first < 0x80 → Bytes.toNatBE (first :: rest) = n →
    bytes.length ≤ (first :: rest).length

/-- The distinguished form of two numbers: a sequence of two integers in their shortest form, where
each length stands in one byte. -/
inductive Distinguished (r s : Nat) : Bytes → Prop
  | mk {length first second : UInt8} {rBytes sBytes : Bytes} (hr : Shortest r rBytes)
      (hs : Shortest s sBytes) (hlength : length.toNat = rBytes.length + sBytes.length + 4)
      (hshort : length < 0x80) (hfirst : first.toNat = rBytes.length)
      (hsecond : second.toNat = sBytes.length) :
      Distinguished r s
        (0x30 :: length :: 0x02 :: first :: (rBytes ++ 0x02 :: second :: sBytes))

variable {bound n r s : Nat} {bytes rest : Bytes}

/-! ### Writing -/

/-- The bytes of a number are its digits, of which the first is not zero, or there is a zero in
front of them, if the first reads as a sign. -/
theorem integerBytes_cases (n : Nat) :
    (n = 0 ∧ integerBytes n = [0]) ∨
      ∃ first digits, first ≠ 0 ∧ Bytes.digitsBE n = first :: digits ∧
        (first < 0x80 ∧ integerBytes n = first :: digits ∨
          0x80 ≤ first ∧ integerBytes n = 0 :: first :: digits) := by
  by_cases hzero : n = 0
  · refine .inl ⟨hzero, ?_⟩
    rw [hzero, integerBytes, Bytes.digitsBE_zero]
  · obtain ⟨first, digits, hfirst, hdigits⟩ := Bytes.exists_digitsBE_eq hzero
    refine .inr ⟨first, digits, hfirst, hdigits, ?_⟩
    rw [integerBytes, hdigits]
    rcases UInt8.lt_or_le first 0x80 with hsign | hsign
    · exact .inl ⟨hsign, if_neg (UInt8.not_le.2 hsign)⟩
    · exact .inr ⟨hsign, if_pos hsign⟩

/-- **Without the zeros in front, the bytes of a number are its digits.** -/
theorem dropWhile_integerBytes (n : Nat) :
    (integerBytes n).dropWhile (· == 0) = Bytes.digitsBE n := by
  obtain ⟨rfl, hbytes⟩ | ⟨first, digits, hfirst, hdigits, ⟨-, hbytes⟩ | ⟨-, hbytes⟩⟩ :=
    integerBytes_cases n
  · rw [hbytes, Bytes.digitsBE_zero]
    rfl
  · rw [hbytes, hdigits]
    simp [hfirst]
  · rw [hbytes, hdigits]
    simp [hfirst]

/-- **No shorter byte string spells a number** without reading as a negative one. -/
theorem length_integerBytes_toNatBE_le {first : UInt8} (hsign : first < 0x80) (rest : Bytes) :
    (integerBytes (Bytes.toNatBE (first :: rest))).length ≤ (first :: rest).length := by
  have hlt := Bytes.toNatBE_lt_bound (first :: rest)
  have hvalue := Bytes.toNatBE_cons first rest
  generalize Bytes.toNatBE (first :: rest) = n at hlt hvalue
  obtain ⟨-, hbytes⟩ | ⟨top, digits, -, hdigits, ⟨-, hbytes⟩ | ⟨htop, hbytes⟩⟩ :=
    integerBytes_cases n
  · rw [hbytes]
    exact Nat.succ_le_succ (Nat.zero_le _)
  · rw [hbytes, ← hdigits]
    exact Bytes.length_digitsBE_le hlt
  · -- with a first digit as large as this the number has fewer digits than there are bytes
    have hvalue' := Bytes.toNatBE_cons top digits
    rw [← hdigits, Bytes.toNatBE_digitsBE] at hvalue'
    have hrest := Bytes.toNatBE_lt_bound rest
    have hfirst : first.toNat ≤ 127 := Nat.le_of_lt_succ hsign
    have htop' : 128 ≤ top.toNat := htop
    have hmul := Nat.mul_le_mul_left (Bytes.bound rest.length) hfirst
    have hmul' := Nat.mul_le_mul_left (Bytes.bound digits.length) htop'
    have hshorter : digits.length < rest.length := by
      refine Nat.lt_of_not_le fun hle => ?_
      have hmono := Bytes.bound_mono hle
      omega
    rw [hbytes]
    exact Nat.succ_le_succ hshorter

theorem shortest_integerBytes (n : Nat) : Shortest n (integerBytes n) := by
  have hfewest : ∀ first rest, first < 0x80 → Bytes.toNatBE (first :: rest) = n →
      (integerBytes n).length ≤ (first :: rest).length := by
    rintro first rest hsign rfl
    exact length_integerBytes_toNatBE_le hsign rest
  have hvalue := Bytes.toNatBE_digitsBE n
  obtain ⟨rfl, hbytes⟩ | ⟨first, digits, -, hdigits, ⟨hsign, hbytes⟩ | ⟨-, hbytes⟩⟩ :=
    integerBytes_cases n
  · rw [hbytes] at hfewest ⊢
    exact ⟨rfl, ⟨0, [], rfl, by decide⟩, hfewest⟩
  · rw [hdigits] at hvalue
    rw [hbytes] at hfewest ⊢
    exact ⟨hvalue, ⟨first, digits, rfl, hsign⟩, hfewest⟩
  · rw [hdigits] at hvalue
    rw [hbytes] at hfewest ⊢
    refine ⟨?_, ⟨0, first :: digits, rfl, by decide⟩, hfewest⟩
    rw [Bytes.toNatBE_cons, UInt8.toNat_zero, Nat.mul_zero, Nat.zero_add, hvalue]

theorem length_integerBytes_le (h : n < Bytes.bound 32) : (integerBytes n).length ≤ 33 := by
  have hlength := Bytes.length_digitsBE_le h
  obtain ⟨-, hbytes⟩ | ⟨first, digits, -, hdigits, ⟨-, hbytes⟩ | ⟨-, hbytes⟩⟩ :=
    integerBytes_cases n
  · rw [hbytes]
    decide
  · rw [hbytes, ← hdigits]
    exact Nat.le_succ_of_le hlength
  · rw [hbytes, ← hdigits]
    exact Nat.succ_le_succ hlength

theorem length_tagged (tag : UInt8) (bytes : Bytes) :
    (tagged tag bytes).length = bytes.length + 2 :=
  rfl

theorem toNat_lengthByte (h : n < 0x80) : UInt8.ofNat n < 0x80 ∧ (UInt8.ofNat n).toNat = n := by
  have hvalue : (UInt8.ofNat n).toNat = n := by
    rw [UInt8.toNat_ofNat']
    omega
  refine ⟨?_, hvalue⟩
  rw [UInt8.lt_iff_toNat_lt, hvalue]
  exact h

/-- **A signature is written in its distinguished form.** -/
theorem distinguished_write (hr : r < Bytes.bound 32) (hs : s < Bytes.bound 32) :
    Distinguished r s (write r s) := by
  have hr_length := length_integerBytes_le hr
  have hs_length := length_integerBytes_le hs
  have hbody : (tagged 0x02 (integerBytes r) ++ tagged 0x02 (integerBytes s)).length =
      (integerBytes r).length + (integerBytes s).length + 4 := by
    rw [List.length_append, length_tagged, length_tagged]
    omega
  obtain ⟨hshort, hlength⟩ := toNat_lengthByte
    (show (integerBytes r).length + (integerBytes s).length + 4 < 0x80 by omega)
  rw [write, tagged, hbody]
  exact .mk (shortest_integerBytes r) (shortest_integerBytes s) hlength hshort
    (toNat_lengthByte (by omega)).2 (toNat_lengthByte (by omega)).2

/-! ### Reading -/

theorem take?_append (bytes rest : Bytes) :
    take? bytes.length (bytes ++ rest) = some (bytes, rest) := by
  simp [take?]

/-- **An integer is read as its bytes.** -/
theorem readInteger_tagged (h : bytes.length < 0x80) :
    readInteger (tagged 0x02 bytes ++ rest) = some (bytes, rest) := by
  obtain ⟨hshort, hlength⟩ := toNat_lengthByte h
  rw [tagged, List.cons_append, List.cons_append, readInteger, readLength, if_pos hshort]
  simp only [Option.bind_eq_bind, Option.bind_some, hlength]
  exact take?_append bytes rest

/-- **The bytes of a number spell it.** -/
theorem scalar?_integerBytes (hbound : bound ≤ Bytes.bound 32) (h : n < bound) :
    scalar? bound (integerBytes n) = some n := by
  have hdigits := Bytes.length_digitsBE_le (Nat.lt_of_lt_of_le h hbound)
  simp only [scalar?, dropWhile_integerBytes, Bytes.toNatBE_digitsBE]
  exact if_pos ⟨hdigits, h⟩

/-- **A signature is read as it was written.** -/
theorem read?_write (hbound : bound ≤ Bytes.bound 32) (hr : r < bound) (hs : s < bound) :
    read? bound (write r s) = some (r, s) := by
  have hr_length := length_integerBytes_le (Nat.lt_of_lt_of_le hr hbound)
  have hs_length := length_integerBytes_le (Nat.lt_of_lt_of_le hs hbound)
  have hbody : (tagged 0x02 (integerBytes r) ++ tagged 0x02 (integerBytes s)).length < 0x80 := by
    rw [List.length_append, length_tagged, length_tagged]
    omega
  have hread_r : readInteger (tagged 0x02 (integerBytes r) ++ tagged 0x02 (integerBytes s)) =
      some (integerBytes r, tagged 0x02 (integerBytes s)) :=
    readInteger_tagged (by omega)
  have hread_s : readInteger (tagged 0x02 (integerBytes s)) = some (integerBytes s, []) := by
    rw [← List.append_nil (tagged 0x02 (integerBytes s))]
    exact readInteger_tagged (by omega)
  rw [write, tagged, read?, skipLength, if_pos (toNat_lengthByte hbody).1]
  simp only [Option.bind_eq_bind, Option.bind_some, hread_r, hread_s,
    scalar?_integerBytes hbound hr, scalar?_integerBytes hbound hs]

end Der

end SpendScript
