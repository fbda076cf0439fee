import Mathlib.Data.List.Forall2
import SpendScript.Proofs.Bytes.HexCase
import SpendScript.Proofs.Instruction.Program
import SpendScript.Proofs.Number.Width
import SpendScript.Proofs.Source.Comment

/-!
# The code of source text

The code of a text is that of its tokens, one after the other.  A token is the code of one
instruction (`Token.instruction?`), unless it is the name of a push with a length: such a name
stands for its byte alone, and what is behind it is taken for the length and the data.

* `Source.assemble_eq_ok_iff` : a text compiles iff its words are tokens, and then to their code;
* `Source.decode?_flatMap_bytes` : tokens that are instructions compile to these instructions;
* `Source.isSome_decode?` : so a text without the name of a push with a length compiles to code
  that is complete.
-/

namespace SpendScript

/-! ### Names -/

namespace Opcode

theorem mem_names_of_ofName? {word : String} {op : Opcode} (h : ofName? word = some op) :
    (word, op) ∈ names := by
  obtain ⟨⟨name, op⟩, hfind, rfl⟩ := Option.map_eq_some_iff.1 h
  obtain rfl : name = word := by simpa using List.find?_some hfind
  exact List.mem_of_find?_eq_some hfind

theorem eq_name_of_ofName? {word : String} {width : PushWidth}
    (h : ofName? word = some (.pushData width)) : word = width.name := by
  rcases List.mem_append.1 (mem_names_of_ofName? h) with hmem | hmem
  · obtain ⟨op, -, heq⟩ := List.mem_map.1 hmem
    obtain ⟨rfl, rfl⟩ := Prod.mk.inj heq
    rfl
  · simp [aliases] at hmem

end Opcode

/-! ### Tokens -/

namespace Instruction

theorem readable_pushOf {data : Bytes} (h : data.length < Bytes.bound PushWidth.four.size) :
    (pushOf data).Readable := by
  unfold pushOf
  simp only
  split_ifs with hdirect hone htwo
  · exact hdirect
  · exact Nat.lt_succ_of_le hone
  · exact Nat.lt_succ_of_le htwo
  · exact h

theorem readable_pushNumber {n : Int} (h : n.natAbs < Bytes.bound 8) :
    (pushNumber n).Readable := by
  unfold pushNumber
  split_ifs with hzero
  · exact Nat.zero_le _
  · split
    · trivial
    · have hlength := Number.length_encode_le h
      exact readable_pushOf (hlength.trans_lt (by decide))

end Instruction

namespace Token

variable {token : Token} {i : Instruction} {word : List Char}

/-- The instruction that a token is the code of. -/
def instruction? : Token → Option Instruction
  | .data bytes => some (.pushOf bytes)
  | .number n => some (.pushNumber n)
  | .opcode .empty => some (.push .direct [])
  | .opcode (.operation op) => some (.operation op)
  | .opcode (.pushData _) => none

/-- The data of a token has a length that a push can hold, and its number is not too large to be
named. -/
def Fits : Token → Prop
  | .data bytes => bytes.length < Bytes.bound PushWidth.four.size
  | .number n => n.natAbs < Bytes.bound 8
  | .opcode _ => True

theorem instruction?_eq_none (h : token.instruction? = none) :
    ∃ width, token = .opcode (.pushData width) := by
  match token, h with
  | .opcode (.pushData width), _ => exact ⟨width, rfl⟩

theorem bytes_of_instruction? (h : token.instruction? = some i) : token.bytes = i.bytes := by
  match token, h with
  | .data bytes, rfl => rfl
  | .number n, rfl => rfl
  | .opcode .empty, rfl => rfl
  | .opcode (.operation op), rfl => rfl

theorem readable_of_instruction? (hfits : token.Fits) (h : token.instruction? = some i) :
    i.Readable := by
  match token, h with
  | .data bytes, rfl => exact Instruction.readable_pushOf hfits
  | .number n, rfl => exact Instruction.readable_pushNumber hfits
  | .opcode .empty, rfl => exact Nat.zero_le _
  | .opcode (.operation op), rfl => trivial

/-! ### Decimal digits -/

/-- The number that decimal digits spell. -/
def decimalValue (digits : List Char) : Nat :=
  digits.foldl (fun n c => 10 * n + (c.toNat - '0'.toNat)) 0

/-- One more digit behind a number. -/
def decimalStep (most n : Nat) (c : Char) : Option Nat :=
  let n := 10 * n + (c.toNat - 48)
  if n ≤ most then some n else none

theorem decimalUpTo?_eq (most : Nat) (digits : List Char) :
    decimalUpTo? most digits = digits.foldlM (decimalStep most) 0 := rfl

theorem le_foldl_decimal (digits : List Char) (start : Nat) :
    start ≤ digits.foldl (fun n c => 10 * n + (c.toNat - '0'.toNat)) start := by
  induction digits generalizing start with
  | nil => exact Nat.le_refl start
  | cons c digits ih =>
    have hfirst : start ≤ 10 * start + (c.toNat - '0'.toNat) := by omega
    exact Nat.le_trans hfirst (ih _)

theorem foldlM_decimalStep (most : Nat) (digits : List Char) {start : Nat} (hstart : start ≤ most) :
    digits.foldlM (decimalStep most) start =
      if digits.foldl (fun n c => 10 * n + (c.toNat - '0'.toNat)) start ≤ most then
        some (digits.foldl (fun n c => 10 * n + (c.toNat - '0'.toNat)) start)
      else none := by
  induction digits generalizing start with
  | nil => exact (if_pos hstart).symm
  | cons c digits ih =>
    have hstep : decimalStep most start c =
        if 10 * start + (c.toNat - '0'.toNat) ≤ most then
          some (10 * start + (c.toNat - '0'.toNat)) else none := rfl
    rw [List.foldlM_cons, List.foldl_cons, hstep]
    by_cases hle : 10 * start + (c.toNat - '0'.toNat) ≤ most
    · rw [if_pos hle]
      exact ih hle
    · -- what is too large already stays so
      have hlater := le_foldl_decimal digits (10 * start + (c.toNat - '0'.toNat))
      rw [if_neg hle, if_neg fun h => hle (Nat.le_trans hlater h)]
      rfl

theorem decimalUpTo?_eq_ite (most : Nat) (digits : List Char) :
    decimalUpTo? most digits =
      if decimalValue digits ≤ most then some (decimalValue digits) else none := by
  rw [decimalUpTo?_eq, foldlM_decimalStep most digits (Nat.zero_le most)]
  rfl

theorem le_of_decimalUpTo? {most n : Nat} {digits : List Char}
    (h : decimalUpTo? most digits = some n) : n ≤ most := by
  rw [decimalUpTo?_eq_ite] at h
  split_ifs at h with hle
  rwa [← Option.some.inj h]

theorem natAbs_le_of_decimal? {n : Int} (h : decimal? word = some n) :
    n.natAbs ≤ minNumber.natAbs := by
  unfold decimal? at h
  split at h
  · rename_i digits _
    cases hk : decimalUpTo? minNumber.natAbs digits with
    | none => simp [hk] at h
    | some k =>
      obtain rfl : -(k : Int) = n := by simpa [hk] using h
      rw [Int.natAbs_neg, Int.natAbs_natCast]
      exact le_of_decimalUpTo? hk
  · rename_i digits _
    cases hk : decimalUpTo? maxNumber.natAbs digits with
    | none => simp [hk] at h
    | some k =>
      obtain rfl : (k : Int) = n := by simpa [hk] using h
      rw [Int.natAbs_natCast]
      exact (le_of_decimalUpTo? hk).trans (by decide)

/-! ### What is read -/

theorem length_lt_of_decode {digits : List Char} {bytes : Bytes}
    (hlength : 4 * ('0' :: 'x' :: digits).length < Bytes.bound PushWidth.four.size)
    (h : Hex.decode digits = .ok bytes) : bytes.length < Bytes.bound PushWidth.four.size := by
  have hle := Hex.length_le_of_decode h
  simp only [List.length_cons] at hlength
  exact Nat.lt_of_le_of_lt (hle.trans (by omega)) hlength

theorem fits_of_read (h : read word = .ok token)
    (hdata : ∀ digits bytes, word = '0' :: 'x' :: digits → Hex.decode digits = .ok bytes →
      bytes.length < Bytes.bound PushWidth.four.size) : token.Fits := by
  unfold read at h
  split at h
  · split at h
    · rename_i digits _ bytes hdecode
      obtain rfl := Except.ok.inj h
      exact hdata digits bytes rfl hdecode
    · exact absurd h (by simp)
  · split at h
    · split at h
      · rename_i n hdecimal
        obtain rfl := Except.ok.inj h
        exact (natAbs_le_of_decimal? hdecimal).trans_lt (by decide)
      · exact absurd h (by simp)
    · split at h
      · obtain rfl := Except.ok.inj h
        trivial
      · exact absurd h (by simp)

theorem eq_name_of_read {width : PushWidth} (h : read word = .ok (.opcode (.pushData width))) :
    String.ofList word = width.name := by
  unfold read at h
  split at h
  · split at h <;> exact absurd h (by simp)
  · split at h
    · split at h <;> exact absurd h (by simp)
    · split at h
      · rename_i op hname
        obtain rfl := Token.opcode.inj (Except.ok.inj h)
        exact Opcode.eq_name_of_ofName? hname
      · exact absurd h (by simp)

end Token

/-! ### Texts -/

namespace Source

variable {code : Bytes} {tokens : List Token} {program : List Instruction}

theorem assembleWords_eq_ok_iff {ws : List (List Char)} {done : List Bytes} :
    assembleWords done ws = .ok code ↔
      ∃ tokens, List.Forall₂ (fun word token => Token.read word = .ok token) ws tokens ∧
        code = done.reverse.flatten ++ tokens.flatMap Token.bytes := by
  induction ws generalizing done with
  | nil =>
    constructor
    · intro h
      exact ⟨[], .nil, by rw [← Except.ok.inj h, List.flatMap_nil, List.append_nil]⟩
    · rintro ⟨tokens, hreads, rfl⟩
      obtain rfl := List.forall₂_nil_left_iff.1 hreads
      rw [assembleWords, List.flatMap_nil, List.append_nil]
  | cons word ws ih =>
    cases hread : Token.read word with
    | error e =>
      rw [assembleWords, hread]
      refine iff_of_false (by simp) ?_
      rintro ⟨tokens, hreads, -⟩
      cases hreads with
      | cons hword _ => exact absurd (hread.symm.trans hword) (by simp)
    | ok token =>
      rw [assembleWords, hread]
      simp only
      rw [ih]
      constructor
      · rintro ⟨tokens, hreads, rfl⟩
        exact ⟨token :: tokens, .cons hread hreads, by simp⟩
      · rintro ⟨tokens, hreads, rfl⟩
        cases hreads with
        | cons hword hrest =>
          obtain rfl := Except.ok.inj (hread.symm.trans hword)
          exact ⟨_, hrest, by simp⟩

/-- **A text compiles iff its words are tokens, and then to the code of these.** -/
theorem assemble_eq_ok_iff {text : String} :
    assemble text = .ok code ↔
      ∃ tokens, List.Forall₂ (fun word token => Token.read word = .ok token)
        (words text.toList) tokens ∧ code = tokens.flatMap Token.bytes :=
  assembleWords_eq_ok_iff

/-- **Tokens that are instructions compile to these instructions.** -/
theorem decode?_flatMap_bytes (hfits : ∀ token ∈ tokens, token.Fits)
    (h : tokens.mapM Token.instruction? = some program) :
    Instruction.decode? (tokens.flatMap Token.bytes) = some program := by
  rw [Instruction.decode?_eq_some_iff]
  induction tokens generalizing program with
  | nil =>
    obtain rfl := Option.some.inj h
    exact ⟨fun i hi => absurd hi List.not_mem_nil, rfl⟩
  | cons token tokens ih =>
    rw [List.forall_mem_cons] at hfits
    rw [List.mapM_cons] at h
    obtain ⟨i, hi, h⟩ := Option.bind_eq_some_iff.1 h
    obtain ⟨rest, hrest, h⟩ := Option.bind_eq_some_iff.1 h
    obtain rfl := Option.some.inj h
    obtain ⟨hreadable, hcode⟩ := ih hfits.2 hrest
    refine ⟨List.forall_mem_cons.2 ⟨Token.readable_of_instruction? hfits.1 hi, hreadable⟩, ?_⟩
    rw [Instruction.codeOf_cons, hcode, List.flatMap_cons, Token.bytes_of_instruction? hi]

theorem exists_mapM_instruction? {ws : List (List Char)}
    (hreads : List.Forall₂ (fun word token => Token.read word = .ok token) ws tokens)
    (hnames : ∀ word ∈ ws, ∀ width : PushWidth, String.ofList word ≠ width.name) :
    ∃ program, tokens.mapM Token.instruction? = some program := by
  induction hreads with
  | nil => exact ⟨[], rfl⟩
  | @cons word token ws tokens hread _ ih =>
    rw [List.forall_mem_cons] at hnames
    obtain ⟨program, hprogram⟩ := ih hnames.2
    cases hinstruction : token.instruction? with
    | none =>
      obtain ⟨width, rfl⟩ := Token.instruction?_eq_none hinstruction
      exact absurd (Token.eq_name_of_read hread) (hnames.1 width)
    | some i =>
      refine ⟨i :: program, ?_⟩
      rw [List.mapM_cons, hinstruction, hprogram]
      rfl

theorem fits_of_reads {ws : List (List Char)}
    (hreads : List.Forall₂ (fun word token => Token.read word = .ok token) ws tokens)
    (hdata : ∀ digits bytes, '0' :: 'x' :: digits ∈ ws → Hex.decode digits = .ok bytes →
      bytes.length < Bytes.bound PushWidth.four.size) :
    ∀ token ∈ tokens, token.Fits := by
  induction hreads with
  | nil => exact fun _ htoken => absurd htoken List.not_mem_nil
  | cons hread _ ih =>
    rw [List.forall_mem_cons]
    refine ⟨Token.fits_of_read hread ?_, ih fun digits bytes hmem => ?_⟩
    · rintro digits bytes rfl
      exact hdata digits bytes List.mem_cons_self
    · exact hdata digits bytes (List.mem_cons_of_mem _ hmem)

/-- **A text without the name of a push with a length compiles to complete code.** -/
theorem isSome_decode? {text : String} (h : assemble text = .ok code)
    (hlength : ∀ word ∈ words text.toList, 4 * word.length < Bytes.bound PushWidth.four.size)
    (hnames : ∀ word ∈ words text.toList, ∀ width : PushWidth,
      String.ofList word ≠ width.name) :
    (Instruction.decode? code).isSome := by
  obtain ⟨tokens, hreads, rfl⟩ := assemble_eq_ok_iff.1 h
  obtain ⟨program, hprogram⟩ := exists_mapM_instruction? hreads hnames
  have hfits := fits_of_reads hreads fun digits bytes hmem =>
    Token.length_lt_of_decode (hlength _ hmem)
  rw [decode?_flatMap_bytes hfits hprogram]
  rfl

end Source

end SpendScript
