import Mathlib.Data.List.TakeWhile
import SpendScript.Proofs.Bytes.HexCase
import SpendScript.Proofs.Instruction.Canonical
import SpendScript.Proofs.Listing.Lines

/-!
# From listings back to code

A listing becomes source text when the offsets are dropped, and the words for pushes in front of
their bytes (`Listing.toSource`).  If the code is canonical, this text compiles to the same code.
All code that source text compiles to is of this kind, unless the text has the name of a push with
a length; and then its listing has a line for each word of the text.

* `Listing.read_sourceOf` : what is left of a line is one word, which means the instruction;
* `Listing.assemble_toSource` : so canonical code comes back;
* `Listing.reassembly` : both facts together.
-/

namespace SpendScript

namespace Listing

open Instruction (CanonicalCode codeOf decode? scan scanFrom)

/-! ### Source text for a listing -/

/-- A line without its offset. -/
def dropOffset (line : List Char) : List Char :=
  (line.dropWhile (· != ':')).drop 2

/-- The words that stand in front of the bytes of a push. -/
def pushWords : List (List Char) :=
  ["PUSH".toList, PushWidth.one.name.toList, PushWidth.two.name.toList, PushWidth.four.name.toList]

/-- What a line says, without the word for a push that bytes in hexadecimal follow. -/
def dropPushWord (said : List Char) : List Char :=
  let word := said.takeWhile (· != ' ')
  let rest := said.drop (word.length + 1)
  if word ∈ pushWords ∧ ['0', 'x'] <+: rest then rest else said

/-- The source text for a listing. -/
def toSource (listing : String) : String :=
  String.ofList (Text.unlines ((Text.lines listing.toList).map fun line =>
    dropPushWord (dropOffset line)))

/-- The lines that a listing has for words of source text from an offset on: one for each word, in
this order, which says what the listing of the word by itself says. -/
inductive Listed : (offset : Nat) → List (List Char) → List String → Prop
  | nil {offset : Nat} : Listed offset [] []
  | cons {offset : Nat} {word : List Char} {token : Token} {said : String}
      {later : List (List Char)} {ls : List String} (hread : Token.read word = .ok token)
      (hline : lines token.bytes = [line 0 said])
      (hlater : Listed (offset + token.bytes.length) later ls) :
      Listed offset (word :: later) (line offset said :: ls)

variable {code data : Bytes} {form : PushForm} {i : Instruction} {program : List Instruction}

/-! ### What is left of a line -/

/-- What is left of the line about an instruction. -/
def sourceOf (i : Instruction) : List Char :=
  dropPushWord (describe i).toList

theorem dropOffset_line (offset : Nat) (text : String) :
    dropOffset (line offset text).toList = text.toList := by
  rw [dropOffset, toList_line, List.dropWhile_append_of_pos (fun _ => ne_colon_of_mem)]
  simp

theorem isBlank_of_mem_name (op : Opcode) : ∀ c ∈ op.name.toList, Text.isBlank c = false :=
  fun c hc => ((chars_name op).2 c hc).isBlank

theorem takeWhile_name (op : Opcode) :
    op.name.toList.takeWhile (· != ' ') = op.name.toList := by
  rw [List.takeWhile_eq_self_iff]
  intro c hc
  have hblank := isBlank_of_mem_name op c hc
  rw [bne_iff_ne]
  rintro rfl
  exact absurd hblank (by decide)

theorem takeWhile_word {word : List Char} (h : word.all (· != ' ')) (rest : List Char) :
    (word ++ ' ' :: rest).takeWhile (· != ' ') = word := by
  rw [List.takeWhile_append_of_pos (List.all_eq_true.1 h)]
  simp

theorem all_of_mem_pushWords {word : List Char} (h : word ∈ pushWords) :
    word.all (· != ' ') := by
  have hall : ∀ word ∈ pushWords, word.all (· != ' ') := by decide
  exact hall word h

theorem pushWord_mem_pushWords (form : PushForm) : (pushWord form).toList ∈ pushWords := by
  match form with
  | .direct | .sized .one | .sized .two | .sized .four => decide

theorem dropPushWord_name (op : Opcode) : dropPushWord op.name.toList = op.name.toList := by
  have hrest : op.name.toList.drop (op.name.toList.length + 1) = [] :=
    List.drop_eq_nil_of_le (Nat.le_succ _)
  unfold dropPushWord
  simp only [takeWhile_name, hrest]
  rw [if_neg]
  simp

theorem dropPushWord_append {word : List Char} (hword : word ∈ pushWords) (digits : List Char) :
    dropPushWord (word ++ ' ' :: '0' :: 'x' :: digits) = '0' :: 'x' :: digits := by
  have hdrop : (word ++ ' ' :: '0' :: 'x' :: digits).drop (word.length + 1) =
      '0' :: 'x' :: digits := by
    rw [← List.drop_drop, List.drop_left]
    rfl
  unfold dropPushWord
  simp only [takeWhile_word (all_of_mem_pushWords hword), hdrop]
  exact if_pos ⟨hword, List.prefix_append ['0', 'x'] digits⟩

theorem sourceOf_push (h : form = .direct → data ≠ []) :
    sourceOf (.push form data) = '0' :: 'x' :: Hex.digits data := by
  rw [sourceOf, describe_push h, toList_pushText,
    dropPushWord_append (pushWord_mem_pushWords form)]

theorem sourceOf_empty : sourceOf (.push .direct []) = (Opcode.name .empty).toList :=
  dropPushWord_name .empty

theorem sourceOf_operation (op : Operation) : sourceOf (.operation op) = op.name.toList :=
  dropPushWord_name (.operation op)

theorem mem_of_mem_dropPushWord {said : List Char} {c : Char} (h : c ∈ dropPushWord said) :
    c ∈ said := by
  unfold dropPushWord at h
  simp only at h
  split_ifs at h
  · exact List.mem_of_mem_drop h
  · exact h

/-! ### Reading it -/

theorem read_name (op : Opcode) : Token.read op.name.toList = .ok (.opcode op) := by
  obtain ⟨rest, hname⟩ := List.head?_eq_some_iff.1 (chars_name op).1
  have hdecimal : Token.isDecimal op.name.toList = false := by
    rw [hname]
    simp [Token.isDecimal, Token.splitSign]
  have hop : Opcode.ofName? (String.ofList op.name.toList) = some op := by
    rw [String.ofList_toList, Opcode.ofName?_name]
  unfold Token.read
  split
  · rename_i heq
    exact absurd (hname.symm.trans heq) (by simp)
  · simp only [hdecimal, hop, Bool.false_eq_true, ↓reduceIte]

theorem read_digits (data : Bytes) :
    Token.read ('0' :: 'x' :: Hex.digits data) = .ok (.data data) := by
  simp only [Token.read, Hex.decode_digits]

theorem words_name (op : Opcode) : Text.words op.name.toList = [op.name.toList] := by
  refine Text.words_eq_singleton ?_ (isBlank_of_mem_name op)
  intro hnil
  exact absurd (chars_name op).1 (by simp [hnil])

theorem words_digits (data : Bytes) :
    Text.words ('0' :: 'x' :: Hex.digits data) = ['0' :: 'x' :: Hex.digits data] := by
  refine Text.words_eq_singleton (by simp) ?_
  rw [List.forall_mem_cons, List.forall_mem_cons]
  refine ⟨by decide, by decide, fun c hc => ?_⟩
  exact (isWordChar_of_isDigit (Hex.isDigit_of_mem_digits hc)).isBlank

/-- **What is left of a line is one word, which means the instruction**, if that is canonical. -/
theorem read_sourceOf (hreadable : i.Readable) (h : i.Canonical) :
    Text.words (sourceOf i) = [sourceOf i] ∧
      ∃ token, Token.read (sourceOf i) = .ok token ∧ token.bytes = i.bytes := by
  match i, hreadable, h with
  | .operation op, _, _ =>
    rw [sourceOf_operation]
    exact ⟨words_name (.operation op), _, read_name (.operation op), rfl⟩
  | .push form data, hreadable, h =>
    have hpush := Instruction.eq_pushOf hreadable h
    by_cases hempty : form = .direct → data ≠ []
    · rw [sourceOf_push hempty]
      exact ⟨words_digits data, _, read_digits data, by rw [hpush, Token.bytes]⟩
    · simp only [not_forall, not_not, exists_prop] at hempty
      obtain ⟨rfl, rfl⟩ := hempty
      rw [sourceOf_empty]
      exact ⟨words_name .empty, _, read_name .empty, rfl⟩

theorem slashes_not_infix_sourceOf (i : Instruction) : ¬ ['/', '/'] <:+: sourceOf i := by
  intro hslashes
  have hmem := hslashes.subset List.mem_cons_self
  exact (isPlain_of_mem_describe i _ (mem_of_mem_dropPushWord hmem)).2.2 rfl

theorem newline_not_mem_sourceOf (i : Instruction) : '\n' ∉ sourceOf i := fun hmem =>
  (isPlain_of_mem_describe i _ (mem_of_mem_dropPushWord hmem)).1 rfl

/-! ### Whole listings -/

theorem map_scanFrom_codeOf (h : ∀ i ∈ program, i.Readable) (offset : Nat) :
    (scanFrom [] offset (codeOf program)).map (fun place => dropOffset (lineOf place).toList) =
      program.map fun i => (describe i).toList := by
  induction program generalizing offset with
  | nil => simp [scanFrom]
  | cons i program ih =>
    rw [List.forall_mem_cons] at h
    rw [Instruction.codeOf_cons, Instruction.scanFrom_bytes_append h.1, List.map_cons, ih h.2,
      List.map_cons, lineOf, dropOffset_line]

theorem words_toSource (h : decode? code = some program) (hcanonical : ∀ i ∈ program, i.Canonical) :
    Source.words (toSource (ofCode code)).toList = program.map sourceOf := by
  obtain ⟨hreadable, rfl⟩ := Instruction.decode?_eq_some_iff.1 h
  have hlines : (Text.lines (ofCode (codeOf program)).toList).map
      (fun line => dropPushWord (dropOffset line)) = program.map sourceOf := by
    have hsaid := congrArg (List.map dropPushWord) (map_scanFrom_codeOf hreadable 0)
    rw [List.map_map, List.map_map] at hsaid
    rw [lines_ofCode, List.map_map]
    exact hsaid
  rw [toSource, String.toList_ofList, hlines, Source.words_unlines, List.flatMap_map]
  · have hwords : ∀ i ∈ program, Text.words (sourceOf i) = [sourceOf i] := fun i hi =>
      (read_sourceOf (hreadable i hi) (hcanonical i hi)).1
    rw [List.flatMap_congr hwords, List.map_eq_flatMap]
  · intro word hword
    obtain ⟨i, -, rfl⟩ := List.mem_map.1 hword
    exact slashes_not_infix_sourceOf i
  · intro word hword
    obtain ⟨i, -, rfl⟩ := List.mem_map.1 hword
    exact newline_not_mem_sourceOf i

/-- **Canonical code comes back from its listing.** -/
theorem assemble_toSource (h : CanonicalCode code) :
    Source.assemble (toSource (ofCode code)) = .ok code := by
  obtain ⟨program, hdecode, hcanonical⟩ := h
  obtain ⟨hreadable, hcode⟩ := Instruction.decode?_eq_some_iff.1 hdecode
  rw [Source.assemble_eq_ok_iff, words_toSource hdecode hcanonical, ← hcode]
  clear hdecode hcode
  induction program with
  | nil => exact ⟨[], .nil, rfl⟩
  | cons i program ih =>
    rw [List.forall_mem_cons] at hreadable hcanonical
    obtain ⟨-, token, hread, hbytes⟩ := read_sourceOf hreadable.1 hcanonical.1
    obtain ⟨tokens, hreads, hrest⟩ := ih hcanonical.2 hreadable.2
    refine ⟨token :: tokens, .cons hread hreads, ?_⟩
    rw [Instruction.codeOf_cons, hrest, List.flatMap_cons, hbytes]

/-! ### Lines for words -/

theorem lines_bytes (h : i.Readable) : lines i.bytes = [line 0 (describe i)] := by
  have hscan := Instruction.scanFrom_bytes_append h 0 []
  rw [List.append_nil] at hscan
  rw [lines_eq, scan, hscan]
  simp [scanFrom, lineOf]

theorem listed_scanFrom {ws : List (List Char)} {tokens : List Token}
    (hreads : List.Forall₂ (fun word token => Token.read word = .ok token) ws tokens)
    (hfits : ∀ token ∈ tokens, token.Fits) (h : tokens.mapM Token.instruction? = some program)
    (offset : Nat) :
    Listed offset ws ((scanFrom [] offset (tokens.flatMap Token.bytes)).map lineOf) := by
  induction hreads generalizing program offset with
  | nil =>
    rw [List.flatMap_nil, scanFrom, List.reverse_nil, List.map_nil]
    exact .nil
  | @cons word token ws tokens hread _ ih =>
    -- the bytes of one word are those of one instruction, so the scan finds it first
    rw [List.forall_mem_cons] at hfits
    rw [List.mapM_cons] at h
    obtain ⟨i, hi, h⟩ := Option.bind_eq_some_iff.1 h
    obtain ⟨rest, hrest, -⟩ := Option.bind_eq_some_iff.1 h
    have hreadable := Token.readable_of_instruction? hfits.1 hi
    have hbytes := Token.bytes_of_instruction? hi
    rw [List.flatMap_cons, hbytes, Instruction.scanFrom_bytes_append hreadable, List.map_cons,
      ← hbytes]
    refine .cons hread ?_ (ih hfits.2 hrest _)
    rw [hbytes, lines_bytes hreadable]

theorem canonical_of_mapM {tokens : List Token}
    (h : tokens.mapM Token.instruction? = some program) : ∀ i ∈ program, i.Canonical := by
  induction tokens generalizing program with
  | nil =>
    obtain rfl := Option.some.inj h
    exact fun _ hi => absurd hi List.not_mem_nil
  | cons token tokens ih =>
    rw [List.mapM_cons] at h
    obtain ⟨i, hi, h⟩ := Option.bind_eq_some_iff.1 h
    obtain ⟨rest, hrest, h⟩ := Option.bind_eq_some_iff.1 h
    obtain rfl := Option.some.inj h
    exact List.forall_mem_cons.2 ⟨Instruction.canonical_of_instruction? hi, ih hrest⟩

/-- **Source text without the name of a push with a length compiles to canonical code**, whose
listing has a line for each word. -/
theorem listed_of_assemble {text : String} (h : Source.assemble text = .ok code)
    (hnames : ∀ width : PushWidth, width.name.toList ∉ Source.words text.toList)
    (hdata : ∀ digits bytes, '0' :: 'x' :: digits ∈ Source.words text.toList →
      Hex.decode digits = .ok bytes → bytes.length < 2 ^ 32) :
    CanonicalCode code ∧ Listed 0 (Source.words text.toList) (lines code) := by
  obtain ⟨tokens, hreads, rfl⟩ := Source.assemble_eq_ok_iff.1 h
  have hwords : ∀ word ∈ Source.words text.toList, ∀ width : PushWidth,
      String.ofList word ≠ width.name := by
    rintro word hword width hname
    rw [← String.toList_inj, String.toList_ofList] at hname
    exact hnames width (hname ▸ hword)
  obtain ⟨program, hprogram⟩ := Source.exists_mapM_instruction? hreads hwords
  have hfits := Source.fits_of_reads hreads hdata
  refine ⟨⟨program, Source.decode?_flatMap_bytes hfits hprogram, canonical_of_mapM hprogram⟩, ?_⟩
  rw [lines_eq]
  exact listed_scanFrom hreads hfits hprogram 0

/-- **Listings can be compiled again.**  Canonical code comes back from the source text for its
listing; and what source text compiles to is canonical, unless the text has the name of a push with
a length, and is listed in a line for each word. -/
theorem reassembly :
    (∀ code, CanonicalCode code → Source.assemble (toSource (ofCode code)) = .ok code) ∧
      ∀ text code, Source.assemble text = .ok code →
        (∀ width : PushWidth, width.name.toList ∉ Source.words text.toList) →
        (∀ digits bytes, '0' :: 'x' :: digits ∈ Source.words text.toList →
          Hex.decode digits = .ok bytes → bytes.length < 2 ^ 32) →
        CanonicalCode code ∧ Listed 0 (Source.words text.toList) (lines code) :=
  ⟨fun _ => assemble_toSource, fun _ _ => listed_of_assemble⟩

/-- A push by an alias, one of bytes, one of a small number and one of a larger number, over two
lines with a comment. -/
theorem reassembly_mixed :
    ∃ code, Source.assemble "OP_FALSE 0x0a0b // two bytes\n16 1000" = .ok code ∧
      CanonicalCode code ∧
      lines code = ["0000: OP_0", "0001: PUSH 0x0a0b", "0004: OP_16", "0005: PUSH 0xe803"] ∧
      Source.assemble (toSource (ofCode code)) = .ok code := by
  have hwords : Source.words "OP_FALSE 0x0a0b // two bytes\n16 1000".toList =
      ["OP_FALSE".toList, "0x0a0b".toList, "16".toList, "1000".toList] := by decide +kernel
  have hcode : Source.assemble "OP_FALSE 0x0a0b // two bytes\n16 1000" =
      .ok [0x00, 0x02, 0x0a, 0x0b, 0x60, 0x02, 0xe8, 0x03] := by decide +kernel
  have hnames : ∀ width : PushWidth, width.name.toList ∉
      ["OP_FALSE".toList, "0x0a0b".toList, "16".toList, "1000".toList] := by
    intro width
    cases width <;> decide
  have hdata : ∀ digits bytes, '0' :: 'x' :: digits ∈
      ["OP_FALSE".toList, "0x0a0b".toList, "16".toList, "1000".toList] →
        Hex.decode digits = .ok bytes → bytes.length < 2 ^ 32 := by
    intro digits bytes hmem hdecode
    have hshort : ∀ word ∈ ["OP_FALSE".toList, "0x0a0b".toList, "16".toList, "1000".toList],
        word.length ≤ 8 := by decide
    have hword := hshort _ hmem
    have hle := Hex.length_le_of_decode hdecode
    simp only [List.length_cons] at hword
    omega
  rw [← hwords] at hnames hdata
  obtain ⟨hcanonical, -⟩ := reassembly.2 _ _ hcode hnames hdata
  exact ⟨_, hcode, hcanonical, by decide +kernel, reassembly.1 _ hcanonical⟩

end Listing

end SpendScript
