import SpendScript.Proofs.Instruction.Boundary
import SpendScript.Proofs.Listing.Reassembly

/-!
# What a listing tells

A listing tells all about its code.  Each line says which instruction it is about, with the form of
a push and all bytes, so that the program can be read from the listing (`Listing.program?`); and it
says where that instruction stands, so that the offsets divide the code into its instructions
(`Listing.Divides`).  Code that ends inside a push is listed as what comes before the push, and one
more line says that there is a push which is cut off.

* `Listing.program?_ofCode` : what is read from a listing is the program of the code;
* `Listing.eq_of_ofCode_eq` : no two programs have the same listing;
* `Listing.divides_offsets` : what the offsets are;
* `Listing.ofCode_of_decode?_eq_none` : the listing of code that ends inside a push;
* `Listing.lossless` : all this together.
-/

namespace SpendScript

namespace Listing

open Instruction (codeOf decode? scan scanFrom)

/-! ### Reading a listing -/

/-- The instruction that a word and the bytes behind it stand for. -/
def meaning? (word : String) (data? : Option Bytes) : Option Instruction :=
  if word = "PUSH" then data?.map (.push .direct)
  else if word = "UNKNOWN" then data?.bind fun data => data.head?.map .unassigned
  else (Opcode.ofName? word).bind fun op =>
    match op with
    | .empty => some (.push .direct [])
    | .pushData width => data?.map (.push (.sized width))
    | .operation op => some (.operation op)

/-- The instruction that a line is about, from what the line says behind the offset. -/
def instruction? (said : List Char) : Option Instruction :=
  let word := said.takeWhile (· != ' ')
  meaning? (String.ofList word) (Hex.decode (said.drop (word.length + 3))).toOption

/-- The program that a listing shows, unless one of its lines is about no instruction. -/
def program? (listing : String) : Option (List Instruction) :=
  (Text.lines listing.toList).mapM fun line => instruction? (dropOffset line)

/-- The offset that a line begins with. -/
def offsetOf (line : String) : Nat :=
  Hex.spelled (line.toList.takeWhile (· != ':'))

/-- The offsets that a listing shows. -/
def offsets (code : Bytes) : List Nat :=
  (lines code).map offsetOf

/-- The offsets divide some code into the instructions of a program. -/
structure Divides (offsets : List Nat) (code : Bytes) (program : List Instruction) : Prop where
  /-- There is one for each instruction. -/
  length_eq : offsets.length = program.length
  /-- The first one is zero. -/
  head_eq : ∀ offset, offsets.head? = some offset → offset = 0
  /-- They grow. -/
  pairwise_lt : offsets.Pairwise (· < ·)
  /-- Each is where its instruction stands. -/
  stands : ∀ (k offset : Nat) (i : Instruction), offsets[k]? = some offset →
    program[k]? = some i → i.bytes <+: code.drop offset
  /-- Behind each instruction stands the next one, or the code ends. -/
  add_length : ∀ (k offset : Nat) (i : Instruction), offsets[k]? = some offset →
    program[k]? = some i → offset + i.bytes.length = offsets[k + 1]?.getD code.length

variable {code code' : Bytes} {program : List Instruction}

/-! ### One line -/

theorem instruction?_append {word : List Char} (hword : word.all (· != ' ')) (data : Bytes) :
    instruction? (word ++ ' ' :: '0' :: 'x' :: Hex.digits data) =
      meaning? (String.ofList word) (some data) := by
  have hdrop : (word ++ ' ' :: '0' :: 'x' :: Hex.digits data).drop (word.length + 3) =
      Hex.digits data := by
    rw [← List.drop_drop, List.drop_left]
    rfl
  unfold instruction?
  simp only [takeWhile_word hword, hdrop, Hex.decode_digits]
  rfl

theorem meaning?_pushWord (form : PushForm) (data : Bytes) :
    meaning? (pushWord form) (some data) = some (.push form data) := by
  match form with
  | .direct => rfl
  | .sized .one | .sized .two | .sized .four => rfl

theorem meaning?_name {op : Opcode} (hop : ∀ width, op ≠ .pushData width)
    (data? : Option Bytes) :
    meaning? op.name data? = some (match op with
      | .operation op => .operation op
      | _ => .push .direct []) := by
  have hne : ∀ word : String, word.toList.head? ≠ some 'O' → op.name ≠ word := by
    rintro word hword rfl
    exact hword (chars_name op).1
  rw [meaning?, if_neg (hne _ (by decide)), if_neg (hne _ (by decide)), Opcode.ofName?_name]
  cases op with
  | empty => rfl
  | pushData width => exact absurd rfl (hop width)
  | operation op => rfl

theorem instruction?_name (op : Opcode) (hop : ∀ width, op ≠ .pushData width) :
    instruction? op.name.toList = some (match op with
      | .operation op => .operation op
      | _ => .push .direct []) := by
  unfold instruction?
  simp only [takeWhile_name, String.ofList_toList]
  exact meaning?_name hop _

/-- **What a line says about an instruction determines it.** -/
theorem instruction?_describe (i : Instruction) : instruction? (describe i).toList = some i := by
  cases i with
  | push form data =>
    by_cases hempty : form = .direct → data ≠ []
    · have hword := all_of_mem_pushWords (pushWord_mem_pushWords form)
      rw [describe_push hempty, toList_pushText, instruction?_append hword, String.ofList_toList,
        meaning?_pushWord]
    · simp only [not_forall, not_not, exists_prop] at hempty
      obtain ⟨rfl, rfl⟩ := hempty
      exact instruction?_name .empty (by simp)
  | operation op => exact instruction?_name (.operation op) (by simp)
  | unassigned byte =>
    have htext : (describe (.unassigned byte)).toList =
        "UNKNOWN".toList ++ ' ' :: '0' :: 'x' :: Hex.digits [byte] := by
      simp [describe, toList_encode]
    rw [htext, instruction?_append (by decide), String.ofList_toList]
    rfl

theorem instruction?_cutText : instruction? cutText.toList = none := by
  decide +kernel

theorem instruction?_lineOf (place : Located) :
    instruction? (dropOffset (lineOf place).toList) = place.fetched.instruction? := by
  unfold lineOf
  split
  · rename_i hfetched
    rw [dropOffset_line, instruction?_describe, hfetched]
    rfl
  · rename_i hfetched
    rw [dropOffset_line, instruction?_cutText, hfetched]
    rfl

theorem offsetOf_lineOf (place : Located) : offsetOf (lineOf place) = place.offset := by
  unfold lineOf
  split <;> rw [offsetOf, takeWhile_line, Hex.spelled_ofNatPadded]

/-! ### Listings -/

/-- **A listing tells the program of its code.** -/
theorem program?_ofCode (code : Bytes) : program? (ofCode code) = decode? code := by
  simp only [program?, lines_ofCode, List.mapM_map, Function.comp_def, instruction?_lineOf, decode?]

/-- **No two programs have the same listing.** -/
theorem eq_of_ofCode_eq (h : (decode? code).isSome) (heq : ofCode code = ofCode code') :
    code = code' := by
  obtain ⟨program, hprogram⟩ := Option.isSome_iff_exists.1 h
  have hprogram' : decode? code' = some program := by
    rw [← program?_ofCode, ← heq, program?_ofCode, hprogram]
  rw [← (Instruction.decode?_eq_some_iff.1 hprogram).2,
    ← (Instruction.decode?_eq_some_iff.1 hprogram').2]

theorem offsets_eq (code : Bytes) : offsets code = (scan code).map Located.offset := by
  simp only [offsets, lines_eq, List.map_map, Function.comp_def, offsetOf_lineOf]

theorem getElem?_offsets (h : ∀ i ∈ program, i.Readable) (k : Nat) :
    (offsets (codeOf program))[k]? = program[k]?.map fun _ => (codeOf (program.take k)).length := by
  rw [offsets_eq, List.getElem?_map, scan, Instruction.getElem?_scanFrom_codeOf h, Option.map_map]
  simp only [Function.comp_def, Nat.zero_add]

/-- **The offsets of a listing divide complete code into its instructions.** -/
theorem divides_offsets (h : decode? code = some program) :
    Divides (offsets code) code program := by
  obtain ⟨hreadable, rfl⟩ := Instruction.decode?_eq_some_iff.1 h
  have hget := getElem?_offsets hreadable
  have hat : ∀ (k offset : Nat) (i : Instruction), (offsets (codeOf program))[k]? = some offset →
      program[k]? = some i → offset = (codeOf (program.take k)).length := by
    intro k offset i hoffset hi
    rw [hget, hi] at hoffset
    exact (Option.some.inj hoffset).symm
  -- the code before an instruction, the instruction, and the code behind it
  have hsplit : ∀ (k : Nat) (i : Instruction), program[k]? = some i →
      codeOf program = codeOf (program.take k) ++ (i.bytes ++ codeOf (program.drop (k + 1))) := by
    intro k i hi
    obtain ⟨hlt, rfl⟩ := List.getElem?_eq_some_iff.1 hi
    rw [← Instruction.codeOf_cons, ← List.drop_eq_getElem_cons hlt, ← Instruction.codeOf_append,
      List.take_append_drop]
  constructor
  case length_eq =>
    have hlen : ∀ k, (offsets (codeOf program)).length ≤ k ↔ program.length ≤ k := by
      intro k
      rw [← List.getElem?_eq_none_iff, ← List.getElem?_eq_none_iff, hget, Option.map_eq_none_iff]
    exact Nat.le_antisymm ((hlen _).2 (Nat.le_refl _)) ((hlen _).1 (Nat.le_refl _))
  case head_eq =>
    intro offset hoffset
    rw [List.head?_eq_getElem?, hget] at hoffset
    obtain ⟨i, -, rfl⟩ := Option.map_eq_some_iff.1 hoffset
    rfl
  case pairwise_lt =>
    rw [offsets_eq, List.pairwise_map]
    exact Instruction.pairwise_offset_scanFrom 0 _
  case stands =>
    intro k offset i hoffset hi
    rw [hat k offset i hoffset hi, hsplit k i hi, List.drop_left]
    exact List.prefix_append _ _
  case add_length =>
    intro k offset i hoffset hi
    have hbehind : codeOf (program.take (k + 1)) = codeOf (program.take k) ++ i.bytes := by
      rw [List.take_add_one, hi, Instruction.codeOf_append]
      simp
    rw [hat k offset i hoffset hi, hget, ← List.length_append, ← hbehind]
    cases hnext : program[k + 1]? with
    | some j => rfl
    | none =>
      have hle : program.length ≤ k + 1 := List.getElem?_eq_none_iff.1 hnext
      rw [List.take_of_length_le hle]
      rfl

/-! ### Code that ends inside a push -/

/-- Any code is that of a program and, behind it, either nothing or a push that is cut off. -/
theorem exists_eq_codeOf_append (code : Bytes) :
    ∃ program rest, (∀ i ∈ program, i.Readable) ∧ code = codeOf program ++ rest ∧
      (rest = [] ∨ ∃ first later size, rest = first :: later ∧
        Instruction.read first later = .truncated size) := by
  induction code using Instruction.walk with
  | nil => exact ⟨[], [], by simp, rfl, .inl rfl⟩
  | cut first rest size hread =>
    exact ⟨[], first :: rest, by simp, rfl, .inr ⟨first, rest, size, rfl, hread⟩⟩
  | behind first rest i size hread ih =>
    obtain ⟨program, tail, hreadable, hcode, htail⟩ := ih
    have hi := (Instruction.read_eq_complete_iff.1 hread).1
    refine ⟨i :: program, tail, List.forall_mem_cons.2 ⟨hi, hreadable⟩, ?_, htail⟩
    rw [Instruction.eq_bytes_append_of_read hread, hcode, Instruction.codeOf_cons,
      List.append_assoc]

theorem length_codeOf_le {front : List Instruction} {first : UInt8} {later : Bytes} {size : Nat}
    (hread : Instruction.read first later = .truncated size)
    (hprogram : ∀ i ∈ program, i.Readable) (hfront : ∀ i ∈ front, i.Readable)
    (h : codeOf front <+: codeOf program ++ first :: later) :
    (codeOf front).length ≤ (codeOf program).length := by
  induction program generalizing front with
  | nil =>
    cases front with
    | nil => exact Nat.le_refl _
    | cons j front =>
      have hj := (List.forall_mem_cons.1 hfront).1
      have hbytes : j.bytes <+: first :: later := by
        rw [Instruction.codeOf_cons] at h
        exact (List.prefix_append _ _).trans h
      have hcomplete := Instruction.read_eq_complete_iff.2 ⟨hj, rfl, hbytes⟩
      exact absurd (hread.symm.trans hcomplete) (by simp)
  | cons i program ih =>
    rw [List.forall_mem_cons] at hprogram
    cases front with
    | nil => exact Nat.zero_le _
    | cons j front =>
      rw [List.forall_mem_cons] at hfront
      obtain ⟨tail, htail⟩ := h
      rw [Instruction.codeOf_cons, Instruction.codeOf_cons, List.append_assoc,
        List.append_assoc] at htail
      obtain ⟨rfl, hrest⟩ :=
        Instruction.bytes_append_cons_inj hfront.1 hprogram.1 htail
      have hle := ih hprogram.2 hfront.2 ⟨tail, hrest⟩
      rw [Instruction.codeOf_cons, Instruction.codeOf_cons, List.length_append,
        List.length_append]
      exact Nat.add_le_add_left hle _

/-- The code is the longest beginning of other code that does not end inside a push. -/
structure IsLongestComplete (front code : Bytes) : Prop where
  /-- The other code begins with it. -/
  isPrefix : front <+: code
  /-- It does not end inside a push. -/
  complete : (decode? front).isSome
  /-- Nothing longer is both. -/
  longest : ∀ other, other <+: code → (decode? other).isSome → other.length ≤ front.length

/-- **Code that ends inside a push is listed as the code before that push**, and one line more. -/
theorem ofCode_of_decode?_eq_none (h : decode? code = none) :
    ∃ front, IsLongestComplete front code ∧
      ofCode code = ofCode front ++ line front.length cutText ++ "\n" := by
  obtain ⟨program, rest, hreadable, rfl, rfl | ⟨first, later, size, rfl, hread⟩⟩ :=
    exists_eq_codeOf_append code
  · rw [List.append_nil, Instruction.decode?_eq_some_iff.2 ⟨hreadable, rfl⟩] at h
    exact absurd h (by simp)
  · have hfront : decode? (codeOf program) = some program :=
      Instruction.decode?_eq_some_iff.2 ⟨hreadable, rfl⟩
    refine ⟨codeOf program, ⟨List.prefix_append _ _, by rw [hfront]; rfl, ?_⟩, ?_⟩
    · intro other hother hcomplete
      obtain ⟨front, hdecode⟩ := Option.isSome_iff_exists.1 hcomplete
      obtain ⟨hreadable', rfl⟩ := Instruction.decode?_eq_some_iff.1 hdecode
      exact length_codeOf_le hread hreadable hreadable' hother
    · have hcut : scan (first :: later) = [⟨0, first, .truncated size⟩] :=
        Instruction.scanFrom_of_cut hread 0
      rw [ofCode_eq, ofCode_eq, Instruction.scan_append hfront, hcut, List.map_append]
      simp [String.join_append, Located.shift, lineOf, String.append_assoc]

/-- **A listing loses nothing.** -/
theorem lossless :
    (∀ code code', (decode? code).isSome → (decode? code').isSome →
      ofCode code = ofCode code' → code = code') ∧
    (∀ code program, decode? code = some program → Divides (offsets code) code program) ∧
    ∀ code, decode? code = none → ∃ front, IsLongestComplete front code ∧
      ofCode code = ofCode front ++ line front.length cutText ++ "\n" :=
  ⟨fun _ _ h _ heq => eq_of_ofCode_eq h heq, fun _ _ => divides_offsets,
    fun _ => ofCode_of_decode?_eq_none⟩

/-- Two pushes of the same byte in different forms have different listings; the offsets of a push
with a length between two other bytes; and a push of two bytes of which only one is there. -/
theorem lossless_forms :
    ofCode [0x01, 0xaa] ≠ ofCode [0x4c, 0x01, 0xaa] ∧
      Divides [0, 1, 4] [0x51, 0x4c, 0x01, 0xaa, 0xba] [.operation (.constant (.small 0)),
        .push (.sized .one) [0xaa], .unassigned 0xba] ∧
      ∃ front, IsLongestComplete front [0x51, 0x02, 0x61] ∧
        ofCode [0x51, 0x02, 0x61] = ofCode front ++ line front.length cutText ++ "\n" := by
  have hoffsets : offsets [0x51, 0x4c, 0x01, 0xaa, 0xba] = [0, 1, 4] := by decide +kernel
  obtain ⟨hunique, hdivides, hcut⟩ := lossless
  refine ⟨fun heq => ?_, ?_, hcut _ (by decide +kernel)⟩
  · exact absurd (hunique _ _ (by decide +kernel) (by decide +kernel) heq) (by decide)
  · rw [← hoffsets]
    exact hdivides _ _ (by decide +kernel)

end Listing

end SpendScript
