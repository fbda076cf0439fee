import Mathlib.Data.Bool.AllAny
import Mathlib.Data.List.Basic
import Mathlib.Data.Nat.Bitwise
import SpendScript.Listing
import SpendScript.Proofs.Bytes.Hex
import SpendScript.Proofs.Instruction.Program
import SpendScript.Proofs.Text.Words

/-!
# The lines of a listing

A listing and a machine read code each in its own way.  Both find the same instructions: the reader
of listings finds a push cut off where that of machines does, and otherwise writes a line about the
instruction that the machine would obey, and goes on where the machine would
(`Listing.item?_eq`).  So a listing has one line for each place that a walk through the code meets
(`Listing.lines_ofCode`).
-/

namespace SpendScript

namespace Listing

open Instruction (maxDirect readData readSized scan scanFrom)

variable {code rest : Bytes} {opcode : UInt8}

/-- The word for a push. -/
def pushWord : PushForm → String
  | .direct => "PUSH"
  | .sized width => width.name

/-- What a line says about an instruction. -/
def describe : Instruction → String
  | .push .direct [] => Opcode.name .empty
  | .push form data => pushWord form ++ " 0x" ++ Hex.encode data
  | .operation op => op.name
  | .unassigned byte => "UNKNOWN 0x" ++ Hex.encode [byte]

/-- The line about a place in the code. -/
def lineOf (place : Located) : String :=
  match place.fetched with
  | .complete i _ => line place.offset (describe i)
  | .truncated _ => line place.offset cutText

/-! ### Both readers -/

theorem number?_eq (width : Nat) (code : Bytes) :
    number? width code = (first? width code).map Bytes.toNatLE := by
  have hfold : ∀ bytes : Bytes,
      bytes.foldr (fun b n => (n <<< 8) ||| b.toNat) 0 = Bytes.toNatLE bytes := by
    intro bytes
    induction bytes with
    | nil => rfl
    | cons b bytes ih =>
      rw [List.foldr_cons, ih, ← Nat.shiftLeft_add_eq_or_of_lt b.toNat_lt, Nat.shiftLeft_eq,
        Bytes.toNatLE]
      omega
  unfold number?
  simp only [hfold]

theorem readData_eq (form : PushForm) (before length : Nat) (rest : Bytes) :
    readData form before length rest =
      match first? length rest with
      | some data => .complete (.push form data) (before + data.length)
      | none => .truncated before := by
  have hle : (rest.take length).length ≤ length := List.length_take_le length rest
  unfold readData first?
  by_cases h : (rest.take length).length = length
  · simp only [h, Nat.lt_irrefl, ↓reduceIte]
  · simp only [if_neg h, if_pos (Nat.lt_of_le_of_ne hle h)]

theorem readSized_eq (width : PushWidth) (rest : Bytes) :
    readSized width rest =
      match number? width.size rest with
      | some length => readData (.sized width) (1 + width.size) length (rest.drop width.size)
      | none => .truncated 1 := by
  have hle : (rest.take width.size).length ≤ width.size := List.length_take_le _ rest
  rw [number?_eq]
  unfold readSized first?
  by_cases h : (rest.take width.size).length = width.size
  · simp only [h, Nat.lt_irrefl, ↓reduceIte, Option.map_some]
  · simp only [if_neg h, if_pos (Nat.lt_of_le_of_ne hle h), Option.map_none]

theorem describe_push {form : PushForm} {data : Bytes} (h : form = .direct → data ≠ []) :
    describe (.push form data) = pushWord form ++ " 0x" ++ Hex.encode data := by
  cases form with
  | direct =>
    cases data with
    | nil => exact absurd rfl (h rfl)
    | cons b data => rfl
  | sized width => rfl

theorem describeByte_opcode {form : PushForm} {data : Bytes}
    (hreadable : (Instruction.push form data).Readable) (h : form = .direct → data ≠ []) :
    Opcode.describeByte (Instruction.push form data).opcode = pushWord form := by
  cases form with
  | direct =>
    have hle : data.length ≤ maxDirect := hreadable
    have hpos : 0 < data.length := List.length_pos_iff.2 (h rfl)
    have hbyte : UInt8.ofNat data.length ≤ 0x4b := by
      rw [UInt8.le_iff_toNat_le, Instruction.toNat_ofNat_of_le hle]
      exact hle
    simp only [Instruction.opcode, Opcode.describeByte, Instruction.ofByte?_eq_none hpos hle]
    exact if_pos hbyte
  | sized width => cases width <;> rfl

theorem describeByte_operation (op : Operation) : Opcode.describeByte op.toByte = op.name := by
  have hop : Opcode.ofByte? op.toByte = some (.operation op) := Opcode.ofByte?_eq_some_iff.2 rfl
  simp only [Opcode.describeByte, hop, Opcode.name]

theorem describeByte_unassigned {byte : UInt8} (h : (Instruction.unassigned byte).Readable) :
    Opcode.describeByte byte = "UNKNOWN" := by
  obtain ⟨hnone, hlt⟩ := h
  have hle : ¬ byte ≤ 0x4b := fun hle => Nat.not_le.2 hlt (UInt8.le_iff_toNat_le.1 hle)
  simp only [Opcode.describeByte, hnone, if_neg hle]

theorem push?_direct (h0 : 1 ≤ opcode.toNat) (h : opcode.toNat ≤ maxDirect) (rest : Bytes) :
    push? opcode rest = some (0, some opcode.toNat) :=
  if_pos ⟨h0, h⟩

theorem push?_sized (width : PushWidth) (rest : Bytes) :
    push? width.toByte rest = some (width.size, number? width.size rest) := by
  cases width <;> rfl

theorem push?_eq_none (h : ∀ width : PushWidth, opcode ≠ width.toByte)
    (hdirect : opcode.toNat = 0 ∨ maxDirect < opcode.toNat) (rest : Bytes) :
    push? opcode rest = none := by
  have hno : ¬ (1 ≤ opcode.toNat ∧ opcode.toNat ≤ maxDirect) := by omega
  unfold push?
  rw [if_neg hno, if_neg (h .one), if_neg (h .two), if_neg (h .four)]

theorem item?_of_push? {width : Nat} {length? : Option Nat}
    (h : push? opcode rest = some (width, length?)) :
    item? opcode rest = (length?.bind fun length => first? length (rest.drop width)).map
      fun data => (pushText opcode data, 1 + width + data.length) := by
  unfold item?
  rw [h]
  cases length? with
  | none => rfl
  | some length => cases hfirst : first? length (rest.drop width) <;> simp [hfirst]

theorem item?_direct (h0 : 1 ≤ opcode.toNat) (h : opcode.toNat ≤ maxDirect)
    (hnone : Opcode.ofByte? opcode = none) (rest : Bytes) :
    item? opcode rest = match readData .direct 1 opcode.toNat rest with
      | .complete i size => some (describe i, size)
      | .truncated _ => none := by
  have hword : Opcode.describeByte opcode = pushWord .direct := by
    have hle : opcode ≤ 0x4b := UInt8.le_iff_toNat_le.2 h
    simp only [Opcode.describeByte, hnone, if_pos hle, pushWord]
  rw [item?_of_push? (push?_direct h0 h rest), readData_eq, Option.bind_some, List.drop_zero]
  cases hfirst : first? opcode.toNat rest with
  | none => rfl
  | some data =>
    have hne : data ≠ [] := by
      rintro rfl
      unfold first? at hfirst
      simp only at hfirst
      split_ifs at hfirst with hlength
      rw [Option.some.inj hfirst, List.length_nil] at hlength
      omega
    simp only [Option.map_some, describe_push fun _ => hne, pushText, hword, Nat.add_zero]

theorem item?_sized (width : PushWidth) (rest : Bytes) :
    item? width.toByte rest = match readSized width rest with
      | .complete i size => some (describe i, size)
      | .truncated _ => none := by
  have hword : Opcode.describeByte width.toByte = pushWord (.sized width) := by
    cases width <;> rfl
  rw [item?_of_push? (push?_sized width rest), readSized_eq]
  cases number? width.size rest with
  | none => rfl
  | some length =>
    simp only [Option.bind_some, readData_eq]
    cases first? length (rest.drop width.size) with
    | none => rfl
    | some data => simp only [Option.map_some, describe, pushText, hword]

/-- **Both readers find the same instructions.** -/
theorem item?_eq (opcode : UInt8) (rest : Bytes) :
    item? opcode rest = match Instruction.read opcode rest with
      | .complete i size => some (describe i, size)
      | .truncated _ => none := by
  cases hop : Opcode.ofByte? opcode with
  | none =>
    have hwidth : ∀ width : PushWidth, opcode ≠ width.toByte := by
      rintro width rfl
      have hsome : Opcode.ofByte? width.toByte = some (.pushData width) :=
        Opcode.ofByte?_eq_some_iff.2 rfl
      exact absurd (hop.symm.trans hsome) (by simp)
    by_cases hle : opcode.toNat ≤ maxDirect
    · have h0 : 1 ≤ opcode.toNat := by
        refine Nat.one_le_iff_ne_zero.2 fun hzero => ?_
        obtain rfl : opcode = 0 := UInt8.toNat.inj hzero
        exact absurd hop (by decide)
      rw [item?_direct h0 hle hop]
      simp only [Instruction.read, hop, if_pos hle]
    · have hnone : push? opcode rest = none := push?_eq_none hwidth (.inr (Nat.not_le.1 hle)) rest
      rw [Instruction.read_unassigned hop (Nat.not_le.1 hle)]
      simp only [item?, hnone, plainText, hop, describe]
  | some op =>
    obtain rfl := Opcode.ofByte?_eq_some_iff.1 hop
    cases op with
    | empty => rfl
    | pushData width =>
      simp only [Opcode.toByte, item?_sized, Instruction.read_sized]
    | operation op =>
      have hwidth : ∀ width : PushWidth, op.toByte ≠ width.toByte := by
        intro width heq
        have hsame : Opcode.operation op = Opcode.pushData width := Opcode.toByte_injective heq
        exact absurd hsame (by simp)
      have hbounds := Instruction.toByte_bounds (.operation op)
      have hnone : push? op.toByte rest = none :=
        push?_eq_none hwidth (.inr (hbounds.resolve_left (by simp))) rest
      simp only [Opcode.toByte] at hop ⊢
      rw [Instruction.read_operation]
      simp only [item?, hnone, plainText, hop, Opcode.name, describe]

/-! ### The walk -/

/-- What is listed does not depend on the lines before, and is a line for each place that a walk
through the code meets. -/
theorem listFrom_eq (output : String) (offset : Nat) (code : Bytes) :
    listFrom output offset code =
      output ++ String.join ((scanFrom [] offset code).map fun place => lineOf place ++ "\n") := by
  induction code using Instruction.walk generalizing output offset with
  | nil => simp [listFrom, scanFrom]
  | cut first rest size hread =>
    simp [listFrom, item?_eq, hread, Instruction.scanFrom_of_cut, lineOf, String.append_assoc]
  | behind first rest i size hread ih =>
    rw [listFrom, item?_eq, hread, Instruction.scanFrom_of_complete hread]
    simp only
    rw [ih]
    simp [lineOf, String.append_assoc]

theorem ofCode_eq (code : Bytes) :
    ofCode code = String.join ((scan code).map fun place => lineOf place ++ "\n") := by
  rw [ofCode, listFrom_eq, String.empty_append]
  rfl

theorem toList_ofCode (code : Bytes) :
    (ofCode code).toList =
      ((scan code).map fun place => (lineOf place).toList).flatMap (· ++ ['\n']) := by
  rw [ofCode_eq, String.toList_join, List.flatMap_map, List.flatMap_map]
  simp

/-! ### Characters -/

/-- The character neither ends a line nor belongs to the end of one, and begins no comment. -/
def IsPlain (c : Char) : Prop :=
  c ≠ '\n' ∧ c ≠ '\r' ∧ c ≠ '/'

instance (c : Char) : Decidable (IsPlain c) := inferInstanceAs (Decidable (_ ∧ _))

/-- The character is visible and comes after the slash, as digits, letters and underscores do. -/
def IsWordChar (c : Char) : Prop :=
  0x30 ≤ c.toNat ∧ c.toNat < 0x7f

instance (c : Char) : Decidable (IsWordChar c) := inferInstanceAs (Decidable (_ ∧ _))

theorem IsWordChar.isPlain {c : Char} (h : IsWordChar c) : IsPlain c := by
  refine ⟨?_, ?_, ?_⟩ <;> rintro rfl <;> exact absurd h (by decide)

theorem IsWordChar.isBlank {c : Char} (h : IsWordChar c) : Text.isBlank c = false := by
  obtain ⟨hlow, hhigh⟩ := h
  have hascii : c.toNat < 0x80 := by omega
  simp only [Text.isBlank, if_pos hascii, Bool.or_eq_false_iff, beq_eq_false_iff_ne,
    Bool.and_eq_false_iff, decide_eq_false_iff_not]
  omega

theorem isWordChar_of_isDigit {c : Char} (h : Hex.IsDigit c) : IsWordChar c := by
  obtain ⟨n, hn, rfl⟩ := h
  have hall : ∀ n < 16, IsWordChar (Hex.digit n) := by decide
  exact hall n hn

theorem chars_name (op : Opcode) :
    op.name.toList.head? = some 'O' ∧ ∀ c ∈ op.name.toList, IsWordChar c := by
  have hall : ∀ op ∈ Opcode.all,
      op.name.toList.head? = some 'O' ∧ op.name.toList.all (IsWordChar ·) := by decide +kernel
  obtain ⟨hhead, hchars⟩ := hall op (Opcode.mem_all op)
  exact ⟨hhead, List.all_iff_forall_prop.1 hchars⟩

theorem isPlain_of_isDigit {c : Char} (h : Hex.IsDigit c) : IsPlain c :=
  (isWordChar_of_isDigit h).isPlain

theorem isPlain_of_mem_name (op : Opcode) : ∀ c ∈ op.name.toList, IsPlain c := fun c hc =>
  ((chars_name op).2 c hc).isPlain

theorem toList_encode (bytes : Bytes) : (Hex.encode bytes).toList = Hex.digits bytes :=
  String.toList_ofList

theorem toList_line (offset : Nat) (text : String) :
    (line offset text).toList = Hex.ofNatPadded 4 offset ++ ':' :: ' ' :: text.toList := by
  simp [line, offsetText]

theorem toList_pushText (form : PushForm) (data : Bytes) :
    (pushWord form ++ " 0x" ++ Hex.encode data).toList =
      (pushWord form).toList ++ ' ' :: '0' :: 'x' :: Hex.digits data := by
  simp [toList_encode]

theorem isPlain_of_mem_line {offset : Nat} {text : String} (h : ∀ c ∈ text.toList, IsPlain c) :
    ∀ c ∈ (line offset text).toList, IsPlain c := by
  have hmark : ∀ c ∈ [':', ' '], IsPlain c := List.all_iff_forall_prop.1 (by decide)
  rw [toList_line, show ':' :: ' ' :: text.toList = [':', ' '] ++ text.toList from rfl]
  simp only [List.forall_mem_append]
  exact ⟨fun c hc => isPlain_of_isDigit (Hex.isDigit_of_mem_ofNatPadded hc), hmark, h⟩

theorem isPlain_of_mem_describe (i : Instruction) : ∀ c ∈ (describe i).toList, IsPlain c := by
  have hdigits : ∀ bytes, ∀ c ∈ Hex.digits bytes, IsPlain c := fun bytes c hc =>
    isPlain_of_isDigit (Hex.isDigit_of_mem_digits hc)
  cases i with
  | push form data =>
    by_cases hempty : form = .direct → data ≠ []
    · have hword : ∀ c ∈ (pushWord form).toList, IsPlain c := by
        cases form with
        | direct => exact List.all_iff_forall_prop.1 (by decide)
        | sized width => exact isPlain_of_mem_name (.pushData width)
      have hmark : ∀ c ∈ [' ', '0', 'x'], IsPlain c := List.all_iff_forall_prop.1 (by decide)
      rw [describe_push hempty, toList_pushText,
        show ' ' :: '0' :: 'x' :: Hex.digits data = [' ', '0', 'x'] ++ Hex.digits data from rfl]
      simp only [List.forall_mem_append]
      exact ⟨hword, hmark, hdigits data⟩
    · simp only [not_forall, not_not, exists_prop] at hempty
      obtain ⟨rfl, rfl⟩ := hempty
      exact isPlain_of_mem_name .empty
  | operation op => exact isPlain_of_mem_name (.operation op)
  | unassigned byte =>
    have hword : ∀ c ∈ "UNKNOWN 0x".toList, IsPlain c := List.all_iff_forall_prop.1 (by decide)
    rw [describe, String.toList_append, toList_encode]
    simp only [List.forall_mem_append]
    exact ⟨hword, hdigits [byte]⟩

theorem isPlain_of_mem_lineOf (place : Located) : ∀ c ∈ (lineOf place).toList, IsPlain c := by
  unfold lineOf
  split
  · exact isPlain_of_mem_line (isPlain_of_mem_describe _)
  · exact isPlain_of_mem_line (List.all_iff_forall_prop.1 (by decide))

theorem describe_ne_cutText (i : Instruction) : describe i ≠ cutText := by
  have hhead : (describe i).toList.head? ≠ some '<' := by
    cases i with
    | push form data =>
      by_cases hempty : form = .direct → data ≠ []
      · rw [describe_push hempty, toList_pushText]
        cases form with
        | direct => simp [pushWord]
        | sized width => cases width <;> simp [pushWord, PushWidth.name]
      · simp only [not_forall, not_not, exists_prop] at hempty
        obtain ⟨rfl, rfl⟩ := hempty
        simp [describe, (chars_name .empty).1]
    | operation op =>
      have hname : op.name.toList.head? = some 'O' := (chars_name (.operation op)).1
      simp [describe, hname]
    | unassigned byte => simp [describe]
  intro heq
  exact hhead (by rw [heq]; rfl)

theorem ne_colon_of_mem {offset : Nat} {c : Char} (h : c ∈ Hex.ofNatPadded 4 offset) :
    (c != ':') = true := by
  obtain ⟨n, hn, rfl⟩ := Hex.isDigit_of_mem_ofNatPadded h
  have hall : ∀ n < 16, (Hex.digit n != ':') = true := by decide
  exact hall n hn

theorem takeWhile_line (offset : Nat) (text : String) :
    (line offset text).toList.takeWhile (· != ':') = Hex.ofNatPadded 4 offset := by
  rw [toList_line, List.takeWhile_append_of_pos fun _ => ne_colon_of_mem]
  simp

/-- **A line tells its offset and its text apart.** -/
theorem line_inj {a b : Nat} {x y : String} : line a x = line b y ↔ a = b ∧ x = y := by
  constructor
  · intro h
    have hoffset : Hex.ofNatPadded 4 a = Hex.ofNatPadded 4 b := by
      rw [← takeWhile_line a x, h, takeWhile_line]
    obtain rfl := Hex.ofNatPadded_inj.1 hoffset
    have htext := congrArg String.toList h
    rw [toList_line, toList_line, List.append_cancel_left_eq, List.cons.injEq,
      List.cons.injEq] at htext
    exact ⟨rfl, String.toList_inj.1 htext.2.2⟩
  · rintro ⟨rfl, rfl⟩
    rfl

/-- **A listing has one line for each place that a walk through the code meets.** -/
theorem lines_ofCode (code : Bytes) :
    Text.lines (ofCode code).toList = (scan code).map fun place => (lineOf place).toList := by
  have hplain : ∀ l ∈ (scan code).map fun place => (lineOf place).toList, ∀ c ∈ l, IsPlain c := by
    intro l hl
    obtain ⟨place, -, rfl⟩ := List.mem_map.1 hl
    exact isPlain_of_mem_lineOf place
  rw [toList_ofCode]
  exact Text.lines_flatMap_newline (fun l hl hmem => (hplain l hl _ hmem).1 rfl)
    fun l hl hmem => (hplain l hl _ hmem).2.1 rfl

/-- The lines of a listing. -/
def lines (code : Bytes) : List String :=
  (Text.lines (ofCode code).toList).map String.ofList

theorem lines_eq (code : Bytes) : lines code = (scan code).map lineOf := by
  simp [lines, lines_ofCode, String.ofList_toList]

end Listing

end SpendScript
