import SpendScript.Instruction
import SpendScript.Proofs.Bytes.Width
import Mathlib.Data.List.Infix
import Mathlib.Tactic.NthRewrite

/-!
# Reading and writing single instructions

`Instruction.read` finds an instruction at the start of a byte string and `Instruction.bytes`
writes one.  The instructions that can be found at all are the *readable* ones
(`Instruction.Readable`): a push must not hold more bytes than its form can count, and an
unassigned byte must have no meaning.

* `Instruction.read_eq_complete_iff` : a readable instruction is found iff the byte string starts
  with its bytes;
* `Instruction.size_of_read_eq_truncated` : what could be read of a push that is cut off is there.
-/

namespace SpendScript

namespace Instruction

/-- The instruction can stand in code: its bytes are read as it. -/
def Readable : Instruction → Prop
  | .push .direct data => data.length ≤ maxDirect
  | .push (.sized width) data => data.length < Bytes.bound width.size
  | .operation _ => True
  | .unassigned byte => Opcode.ofByte? byte = none ∧ maxDirect < byte.toNat

/-- The first byte. -/
def opcode : Instruction → UInt8
  | .push .direct data => UInt8.ofNat data.length
  | .push (.sized width) _ => width.toByte
  | .operation op => op.toByte
  | .unassigned byte => byte

/-- The bytes behind the first one. -/
def operand : Instruction → Bytes
  | .push .direct data => data
  | .push (.sized width) data => Bytes.ofNatLE width.size data.length ++ data
  | .operation _ => []
  | .unassigned _ => []

variable {i : Instruction} {first : UInt8} {rest data : Bytes} {size before length : Nat}

theorem bytes_eq (i : Instruction) : i.bytes = i.opcode :: i.operand := by
  cases i with
  | push form data => cases form <;> rfl
  | operation op => rfl
  | unassigned byte => rfl

theorem length_bytes (i : Instruction) : i.bytes.length = i.operand.length + 1 := by
  rw [bytes_eq, List.length_cons]

theorem length_bytes_pos (i : Instruction) : 0 < i.bytes.length := by
  rw [length_bytes]
  exact Nat.succ_pos _

/-! ### Bytes without an opcode -/

theorem toByte_bounds (op : Opcode) : op = .empty ∨ maxDirect < op.toByte.toNat := by
  have h : ∀ op ∈ Opcode.all, op = .empty ∨ maxDirect < op.toByte.toNat := by decide +kernel
  exact h op (Opcode.mem_all op)

theorem toNat_ofNat_of_le {n : Nat} (h : n ≤ maxDirect) : (UInt8.ofNat n).toNat = n := by
  simp only [maxDirect] at h
  rw [UInt8.toNat_ofNat']
  omega

theorem ofByte?_eq_none {n : Nat} (h0 : 0 < n) (h : n ≤ maxDirect) :
    Opcode.ofByte? (UInt8.ofNat n) = none := by
  have hn := toNat_ofNat_of_le h
  cases hop : Opcode.ofByte? (UInt8.ofNat n) with
  | none => rfl
  | some op =>
    rw [Opcode.ofByte?_eq_some_iff] at hop
    rcases toByte_bounds op with rfl | hlt
    · rw [← hop] at hn
      exact absurd hn.symm (Nat.ne_of_gt h0)
    · rw [hop, hn] at hlt
      omega

/-! ### Reading -/

theorem readData_eq_complete_iff {form : PushForm} :
    readData form before length rest = .complete i size ↔
      ∃ data, i = .push form data ∧ data.length = length ∧ size = before + length ∧
        data <+: rest := by
  unfold readData
  constructor
  · intro h
    simp only at h
    split at h
    · exact absurd h (by simp)
    · rename_i hlen
      simp only [Fetched.complete.injEq] at h
      refine ⟨rest.take length, h.1.symm, ?_, h.2.symm, List.take_prefix _ _⟩
      have := List.length_take_le length rest
      omega
  · rintro ⟨data, rfl, rfl, rfl, hprefix⟩
    have htake : rest.take data.length = data := (List.prefix_iff_eq_take.1 hprefix).symm
    simp [htake]

theorem readSized_eq_complete_iff {width : PushWidth} :
    readSized width rest = .complete i size ↔
      ∃ data, i = .push (.sized width) data ∧ data.length < Bytes.bound width.size ∧
        size = 1 + width.size + data.length ∧
        Bytes.ofNatLE width.size data.length ++ data <+: rest := by
  unfold readSized
  constructor
  · intro h
    simp only at h
    split at h
    · exact absurd h (by simp)
    · rename_i hlen
      have hwidth : (rest.take width.size).length = width.size := by
        have := List.length_take_le width.size rest
        omega
      obtain ⟨data, rfl, hdata, rfl, hprefix⟩ := readData_eq_complete_iff.1 h
      have hlt := Bytes.toNatLE_lt_bound (rest.take width.size)
      have hlength := Bytes.ofNatLE_toNatLE (rest.take width.size)
      rw [hwidth, ← hdata] at hlt hlength
      refine ⟨data, rfl, hlt, by rw [hdata], ?_⟩
      rw [hlength]
      nth_rewrite 2 [← List.take_append_drop width.size rest]
      exact (List.prefix_append_right_inj _).2 hprefix
  · rintro ⟨data, rfl, hlt, rfl, tail, rfl⟩
    have htake : (Bytes.ofNatLE width.size data.length ++ data ++ tail).take width.size =
        Bytes.ofNatLE width.size data.length := by
      rw [List.append_assoc, List.take_left' (Bytes.length_ofNatLE _ _)]
    have hdrop : (Bytes.ofNatLE width.size data.length ++ data ++ tail).drop width.size =
        data ++ tail := by
      rw [List.append_assoc, List.drop_left' (Bytes.length_ofNatLE _ _)]
    simp only [htake, hdrop, Bytes.length_ofNatLE, Nat.lt_irrefl, ↓reduceIte,
      Bytes.toNatLE_ofNatLE hlt]
    exact readData_eq_complete_iff.2 ⟨data, rfl, rfl, rfl, List.prefix_append _ _⟩

/-! ### Which reader a first byte selects -/

theorem read_operation (op : Operation) (rest : Bytes) :
    read op.toByte rest = .complete (.operation op) 1 := by
  have hop : Opcode.ofByte? op.toByte = some (.operation op) := Opcode.ofByte?_eq_some_iff.2 rfl
  simp only [read, hop]

theorem read_sized (width : PushWidth) (rest : Bytes) :
    read width.toByte rest = readSized width rest := by
  have hop : Opcode.ofByte? width.toByte = some (.pushData width) :=
    Opcode.ofByte?_eq_some_iff.2 rfl
  simp only [read, hop]

theorem read_direct {n : Nat} (h : n ≤ maxDirect) (rest : Bytes) :
    read (UInt8.ofNat n) rest = readData .direct 1 n rest := by
  rcases Nat.eq_zero_or_pos n with rfl | hpos
  · have hop : Opcode.ofByte? (UInt8.ofNat 0) = some .empty := Opcode.ofByte?_eq_some_iff.2 rfl
    simp only [read, hop]
    rfl
  · have hn : (UInt8.ofNat n).toNat = n := toNat_ofNat_of_le h
    simp only [read, ofByte?_eq_none hpos h, hn, if_pos h]

theorem read_unassigned (hnone : Opcode.ofByte? first = none) (hlt : maxDirect < first.toNat)
    (rest : Bytes) : read first rest = .complete (.unassigned first) 1 := by
  simp only [read, hnone, if_neg (Nat.not_le.2 hlt)]

/-- **An instruction is found iff the byte string starts with its bytes.** -/
theorem read_eq_complete_iff :
    read first rest = .complete i size ↔
      i.Readable ∧ size = i.bytes.length ∧ i.bytes <+: first :: rest := by
  rw [bytes_eq, List.cons_prefix_cons, List.length_cons]
  constructor
  · intro h
    unfold read at h
    split at h
    · rename_i hop
      simp only [Fetched.complete.injEq] at h
      obtain ⟨rfl, rfl⟩ := h
      exact ⟨Nat.zero_le _, rfl, Opcode.ofByte?_eq_some_iff.1 hop, List.nil_prefix⟩
    · rename_i width hop
      obtain ⟨data, rfl, hlt, rfl, hprefix⟩ := readSized_eq_complete_iff.1 h
      refine ⟨hlt, ?_, Opcode.ofByte?_eq_some_iff.1 hop, hprefix⟩
      simp only [operand, List.length_append, Bytes.length_ofNatLE]
      omega
    · rename_i op hop
      simp only [Fetched.complete.injEq] at h
      obtain ⟨rfl, rfl⟩ := h
      exact ⟨trivial, rfl, Opcode.ofByte?_eq_some_iff.1 hop, List.nil_prefix⟩
    · rename_i hop
      split at h
      · rename_i hle
        obtain ⟨data, rfl, hdata, rfl, hprefix⟩ := readData_eq_complete_iff.1 h
        refine ⟨hdata.trans_le hle, by rw [operand, hdata, Nat.add_comm], ?_, hprefix⟩
        rw [opcode, hdata, UInt8.ofNat_toNat]
      · rename_i hlt
        simp only [Fetched.complete.injEq] at h
        obtain ⟨rfl, rfl⟩ := h
        exact ⟨⟨hop, Nat.not_le.1 hlt⟩, rfl, rfl, List.nil_prefix⟩
  · rintro ⟨hreadable, rfl, rfl, hprefix⟩
    match i, hreadable with
    | .operation op, _ => exact read_operation op rest
    | .unassigned byte, ⟨hnone, hlt⟩ => exact read_unassigned hnone hlt rest
    | .push .direct data, hle =>
      rw [opcode, read_direct hle, operand, readData_eq_complete_iff]
      exact ⟨data, rfl, rfl, Nat.add_comm _ _, hprefix⟩
    | .push (.sized width) data, hlt =>
      rw [opcode, read_sized, readSized_eq_complete_iff]
      refine ⟨data, rfl, hlt, ?_, hprefix⟩
      simp only [operand, List.length_append, Bytes.length_ofNatLE]
      omega

theorem eq_bytes_append_of_read (h : read first rest = .complete i size) :
    first :: rest = i.bytes ++ rest.drop (size - 1) := by
  obtain ⟨-, rfl, tail, htail⟩ := read_eq_complete_iff.1 h
  rw [bytes_eq, List.cons_append, List.cons.injEq] at htail
  obtain ⟨rfl, rfl⟩ := htail
  rw [length_bytes, Nat.add_sub_cancel, List.drop_left, bytes_eq, List.cons_append]

theorem size_of_readData_eq_truncated {form : PushForm}
    (h : readData form before length rest = .truncated size) : size = before := by
  unfold readData at h
  simp only at h
  split at h
  · exact (Fetched.truncated.inj h).symm
  · exact absurd h (by simp)

/-- **What could be read of a push that is cut off is there**, and is at least its first byte. -/
theorem size_of_read_eq_truncated (h : read first rest = .truncated size) :
    0 < size ∧ size ≤ (first :: rest).length := by
  unfold read at h
  rw [List.length_cons]
  split at h
  · exact absurd h (by simp)
  · rename_i width _
    unfold readSized at h
    simp only at h
    split at h
    · simp only [Fetched.truncated.injEq] at h
      omega
    · rename_i hlen
      have := size_of_readData_eq_truncated h
      have := List.length_take_le' width.size rest
      omega
  · exact absurd h (by simp)
  · split at h
    · have := size_of_readData_eq_truncated h
      omega
    · exact absurd h (by simp)

end Instruction

end SpendScript
