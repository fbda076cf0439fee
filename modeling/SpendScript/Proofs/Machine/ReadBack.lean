import SpendScript.Crypto.ScriptSignature
import SpendScript.Proofs.Listing.Lines
import SpendScript.Proofs.Machine.Pushes
import SpendScript.Proofs.Source.Offender

/-!
# Pushes read back

The code that is written to push some bytes is read back as a push of these bytes, whatever stands
before and behind it, by machines and by listings; and it is the shortest code that is
(`Machine.ReadsBack`).  The code for a number is that of an opcode or of some bytes, and pushes the
encoding of the number in either case (`Machine.NumberReadsBack`).

* `Machine.readsBack` : so it is for all bytes that a push can hold;
* `Machine.numberReadsBack` : and for all numbers of 64 bits, however they are spelled.
-/

namespace SpendScript

open Instruction (pushOf pushNumber operations)

namespace Instruction

variable {data : Bytes} {form : PushForm} {first : UInt8} {tail : Bytes} {size : Nat}

/-- **No code that is read as a push of some bytes is shorter** than what is written for them. -/
theorem length_pushOf_le (h : read first tail = .complete (.push form data) size) :
    (pushOf data).bytes.length ≤ size := by
  obtain ⟨hreadable, rfl, -⟩ := read_eq_complete_iff.1 h
  obtain ⟨least, hleast, -⟩ := exists_pushOf data
  have hcanonical := canonical_pushOf data
  rw [hleast] at hcanonical ⊢
  exact hcanonical form hreadable

end Instruction

namespace Listing

theorem describe_pushOf {data : Bytes} (hdata : data.length < 2 ^ 32) :
    describe (pushOf data) =
      if data = [] then Opcode.name .empty else pushText (pushOf data).opcode data := by
  by_cases hempty : data = []
  · subst hempty
    rfl
  · have hreadable : (pushOf data).Readable := Instruction.readable_pushOf hdata
    obtain ⟨form, hform, -⟩ := Instruction.exists_pushOf data
    rw [hform] at hreadable
    have hne : form = .direct → data ≠ [] := fun _ => hempty
    rw [if_neg hempty, hform, describe_push hne, pushText, describeByte_opcode hreadable hne]

end Listing

namespace Machine

/-! ### The statements -/

/-- The push of some bytes behind some code and in front of other code is read back. -/
structure ReadsBack (data pre rest : Bytes) : Prop where
  /-- A machine finds a push of the bytes, which ends where the code for it ends. -/
  complete : ∃ form first tail,
    (pre ++ (pushOf data).bytes ++ rest).drop pre.length = first :: tail ∧
      Instruction.read first tail = .complete (.push form data) (pushOf data).bytes.length
  /-- A listing shows the bytes and goes on where the code for them ends. -/
  listed : ∃ first tail,
    (pre ++ (pushOf data).bytes ++ rest).drop pre.length = first :: tail ∧
      Listing.item? first tail =
        some (if data = [] then Opcode.name .empty else Listing.pushText first data,
          (pushOf data).bytes.length)
  /-- No code that is read as a push of the bytes is shorter. -/
  shortest : ∀ form first tail size,
    Instruction.read first tail = .complete (.push form data) size →
      (pushOf data).bytes.length ≤ size
  /-- A machine pushes the bytes if they are not too many for an item. -/
  pushed : ∀ primitives digest m s,
    Machine.load primitives digest (pre ++ (pushOf data).bytes ++ rest) = .ok m →
      s.status = .running → s.pc = pre.length → s.isExecuting = true →
      s.main.length + s.alt.length < Stack.maxItems → data.length ≤ 520 →
        m.step s = .ok () { s with
          pc := (pre ++ (pushOf data).bytes).length, main := data :: s.main }
  /-- It passes over them in a branch that is not executed. -/
  passed : ∀ primitives digest m s,
    Machine.load primitives digest (pre ++ (pushOf data).bytes ++ rest) = .ok m →
      s.status = .running → s.pc = pre.length → s.isExecuting = false →
      s.main.length + s.alt.length ≤ Stack.maxItems → data.length ≤ 520 →
        m.step s = .ok () { s with pc := (pre ++ (pushOf data).bytes).length }
  /-- In either case it fails if they are too many. -/
  refused : ∀ primitives digest m s,
    Machine.load primitives digest (pre ++ (pushOf data).bytes ++ rest) = .ok m →
      s.status = .running → s.pc = pre.length → 520 < data.length →
        ∃ t, m.step s = .error (.pushSize data.length) t

/-- The push of a number that a word spells is compiled, and pushes the encoding of the number. -/
structure NumberReadsBack (n : Int64) (word : List Char) : Prop where
  /-- Where the word stands in a text, its code stands in the code of the text. -/
  compiled : ∀ text before after, Source.words text.toList = before ++ word :: after →
    Source.assemble text = do
      let pre ← Source.assembleWords [] before
      let rest ← Source.assembleWords [] after
      return pre ++ (pushNumber n.toInt).bytes ++ rest
  /-- A machine that comes to this code pushes the encoding of the number. -/
  pushed : ∀ primitives digest m s pre rest,
    Machine.load primitives digest (pre ++ (pushNumber n.toInt).bytes ++ rest) = .ok m →
      s.status = .running → s.pc = pre.length → s.isExecuting = true →
      s.main.length + s.alt.length < Stack.maxItems →
        m.step s = .ok () { s with
          pc := (pre ++ (pushNumber n.toInt).bytes).length,
          main := Number.encode n.toInt :: s.main }

/-! ### Instructions between other code -/

variable {m : Machine} {s : State} {i : Instruction} {item data pre rest : Bytes}

theorem drop_append_bytes (i : Instruction) (pre rest : Bytes) :
    (pre ++ i.bytes ++ rest).drop pre.length = i.opcode :: (i.operand ++ rest) := by
  rw [List.append_assoc, List.drop_left, Instruction.bytes_eq, List.cons_append]

theorem read_opcode (hi : i.Readable) (rest : Bytes) :
    Instruction.read i.opcode (i.operand ++ rest) = .complete i i.bytes.length := by
  rw [Instruction.read_eq_complete_iff, ← List.cons_append, ← Instruction.bytes_eq]
  exact ⟨hi, rfl, List.prefix_append _ _⟩

theorem reads_of_code (hcode : m.code = pre ++ i.bytes ++ rest) (hpc : s.pc = pre.length)
    (hi : i.Readable) : m.Reads s i := by
  refine ⟨hi, ?_⟩
  rw [hcode, hpc, List.append_assoc, List.drop_left]
  exact List.prefix_append _ _

theorem step_of_pushes (hcapacity : m.rules.capacity = some Stack.maxItems)
    (hcode : m.code = pre ++ i.bytes ++ rest) (hi : i.Pushes item) (hs : s.status = .running)
    (hpc : s.pc = pre.length) (hexecuting : s.isExecuting = true)
    (hroom : s.main.length + s.alt.length < Stack.maxItems) :
    m.step s = .ok () { s with pc := (pre ++ i.bytes).length, main := item :: s.main } := by
  have hreads := reads_of_code hcode hpc hi.readable
  rw [step_of_reads_pushes hcapacity hreads hi hs hexecuting hroom, hpc, List.length_append]

theorem step_of_push_passed {form : PushForm} (hreads : m.Reads s (.push form data))
    (hs : s.status = .running) (hexecuting : s.isExecuting = false)
    (hroom : s.main.length + s.alt.length ≤ Stack.maxItems)
    (hdata : data.length ≤ Stack.maxItemSize) :
    m.step s = .ok () (s.behind (.push form data)) := by
  have huncounted := Instruction.isCounted_eq_false hreads.1 rfl
  have hobey := obey_eq (m := m) (s := s.behind (.push form data)) hreads.1 hdata
    fun hcounted => absurd (huncounted.symm.trans hcounted) (by simp)
  have hbehind : (s.behind (.push form data)).isExecuting = false := hexecuting
  rw [hbehind, State.counted, Instruction.operations_push hreads.1] at hobey
  exact step_of_reads_ok hs hreads hobey hroom

/-! ### Bytes and numbers -/

/-- **The push of some bytes is read back.** -/
theorem readsBack (hdata : data.length < 2 ^ 32) (pre rest : Bytes) : ReadsBack data pre rest := by
  have hreadable : (pushOf data).Readable := Instruction.readable_pushOf hdata
  obtain ⟨form, hform, -⟩ := Instruction.exists_pushOf data
  have hread := read_opcode hreadable rest
  have hdrop := drop_append_bytes (pushOf data) pre rest
  exact {
    complete := ⟨form, _, _, hdrop, by rw [hread, hform]⟩
    listed := ⟨_, _, hdrop, by
      simp only [Listing.item?_eq, hread, Listing.describe_pushOf hdata]⟩
    shortest _ _ _ _ := Instruction.length_pushOf_le
    pushed primitives digest m s hload hs hpc hexecuting hroom hlength := by
      obtain ⟨hcode, -⟩ := of_load hload
      exact step_of_pushes (capacity_of_load hload) hcode (Instruction.pushes_pushOf hlength) hs hpc
        hexecuting hroom
    passed primitives digest m s hload hs hpc hexecuting hroom hlength := by
      obtain ⟨hcode, -⟩ := of_load hload
      have hreads := reads_of_code hcode hpc hreadable
      rw [hform] at hreads
      rw [step_of_push_passed hreads hs hexecuting hroom hlength, State.behind, hpc, hform,
        List.length_append]
    refused primitives digest m s hload hs hpc hlength := by
      obtain ⟨hcode, -⟩ := of_load hload
      have hreads := reads_of_code hcode hpc hreadable
      rw [hform] at hreads
      exact ⟨_, step_of_reads_error hs hreads (obey_push_of_lt hlength _)⟩ }

/-- **The push of a number is read back**, however the number is spelled. -/
theorem numberReadsBack {n : Int64} {word : List Char} (h : Token.Decimal word n.toInt) :
    NumberReadsBack n word := by
  have hlower := n.le_toInt
  have hupper := n.toInt_lt
  have hread : Token.read word = .ok (.number n.toInt) := by
    rw [Token.read_of_decimal h, if_pos]
    exact ⟨hlower, Int.le_sub_one_of_lt hupper⟩
  have hfits : n.toInt.natAbs < Bytes.bound 8 := by
    have hbound : Bytes.bound 8 = 2 ^ 64 := rfl
    omega
  exact {
    compiled text before after hwords := by
      rw [Source.assemble, Source.assembleChars, hwords, Source.assembleWords_append,
        Source.assembleWords_cons, hread]
      simp only [Source.assembleWords_eq_map [_] after]
      cases Source.assembleWords [] before with
      | error e => rfl
      | ok pre =>
        cases Source.assembleWords [] after with
        | error e => rfl
        | ok rest =>
          show Except.ok _ = Except.ok _
          simp [Token.bytes]
    pushed primitives digest m s pre rest hload hs hpc hexecuting hroom := by
      obtain ⟨hcode, -⟩ := of_load hload
      exact step_of_pushes (capacity_of_load hload) hcode (Instruction.pushes_pushNumber hfits) hs
        hpc hexecuting hroom }

/-- **Pushes are read back.**  The code for some bytes that a push can hold is a push of these bytes
for machines and in listings, ends where it ends, and is as short as can be; and the code for a
number of 64 bits pushes what the number is written as, however the number is spelled. -/
theorem pushes_read_back :
    (∀ data : Bytes, data.length < 2 ^ 32 → ∀ pre rest : Bytes, ReadsBack data pre rest) ∧
      ∀ (n : Int64) (word : List Char), Token.Decimal word n.toInt → NumberReadsBack n word :=
  ⟨fun _ => readsBack, fun _ _ => numberReadsBack⟩

/-- A push of one byte too many behind another instruction fails also where it is passed over; and
zeros in front of a number make no difference. -/
theorem pushes_read_back_long : ∃ m t,
    Machine.load .standard .zero
      ([0x61] ++ (pushOf (List.replicate 521 0x07)).bytes ++ [0x51]) = .ok m ∧
    m.step { pc := 1, frames := [false] } = .error (.pushSize 521) t ∧
    Source.assemble "-007" = .ok [0x01, 0x87] := by
  have hlength : (List.replicate 521 (0x07 : UInt8)).length = 521 := List.length_replicate
  obtain ⟨m, hload⟩ : ∃ m, Machine.load .standard .zero
      ([0x61] ++ (pushOf (List.replicate 521 0x07)).bytes ++ [0x51]) = .ok m :=
    ⟨_, load_eq (by decide +kernel)⟩
  have hlong := pushes_read_back.1 (List.replicate 521 0x07) (by omega) [0x61] [0x51]
  have hnumber := pushes_read_back.2 (-7) "-007".toList
    (@Token.Decimal.minus ['0', '0', '7'] (by simp) (by simp))
  have hrefused := hlong.refused .standard .zero m { pc := 1, frames := [false] } hload
  obtain ⟨t, hfault⟩ := hrefused rfl rfl (by omega)
  rw [hlength] at hfault
  have hcode := hnumber.compiled "-007" [] [] (by decide +kernel)
  exact ⟨m, t, hload, hfault, hcode.trans (by decide +kernel)⟩

end Machine

end SpendScript
