import SpendScript.Machine.Step
import SpendScript.Proofs.Instruction.Reading

/-!
# Code as a list of instructions

Code that does not end inside a push is the bytes of a list of readable instructions, and of only
one (`Instruction.decode?_eq_some_iff`).  What can be said of such a program without running it:

* `Instruction.isCounted`, `Instruction.operations` : which instructions count as operations, and
  how many there are;
* `Instruction.Permitted` : the instruction does not fail wherever it is met;
* `Instruction.nest`, `Instruction.nesting`, `Instruction.Balanced` : how deep conditionals are
  nested behind an instruction or a program, if none is turned or closed that is not open.
-/

namespace SpendScript

/-- The instruction, if it is complete. -/
def Fetched.instruction? : Fetched → Option Instruction
  | .complete instruction _ => some instruction
  | .truncated _ => none

namespace Instruction

/-- The code of a program. -/
def codeOf (program : List Instruction) : Bytes :=
  program.flatMap bytes

/-- The program of some code, unless the code ends inside a push. -/
def decode? (code : Bytes) : Option (List Instruction) :=
  (scan code).mapM fun place => place.fetched.instruction?

/-- The instruction counts as an operation. -/
def isCounted (i : Instruction) : Bool :=
  0x60 < i.opcode

/-- The number of operations in a program. -/
def operations (program : List Instruction) : Nat :=
  program.countP isCounted

/-- The instruction is neither a push of too many bytes nor a word that fails wherever it is
met. -/
def Permitted : Instruction → Prop
  | .push _ data => data.length ≤ Stack.maxItemSize
  | .operation (.forbidden _) | .operation (.disabled _) => False
  | _ => True

/-- How many conditionals are open behind an instruction if `depth` are open before it. -/
def nest : Instruction → (depth : Nat) → Option Nat
  | .operation (.branch .ifTrue), depth | .operation (.branch .ifFalse), depth => some (depth + 1)
  | .operation (.branch .otherwise), depth => if depth = 0 then none else some depth
  | .operation (.branch .endIf), depth => if depth = 0 then none else some (depth - 1)
  | _, depth => some depth

/-- How many conditionals are open behind a program if `depth` are open before it. -/
def nesting (depth : Nat) (program : List Instruction) : Option Nat :=
  program.foldlM (fun depth i => i.nest depth) depth

/-- The program turns and closes only conditionals that it opened, and leaves none open. -/
def Balanced (program : List Instruction) : Prop :=
  nesting 0 program = some 0

variable {i : Instruction} {program rest : List Instruction} {code tail : Bytes}

/-! ### Programs and their code -/

@[simp] theorem codeOf_nil : codeOf [] = [] := rfl

@[simp] theorem codeOf_cons : codeOf (i :: program) = i.bytes ++ codeOf program :=
  List.flatMap_cons

@[simp] theorem codeOf_append : codeOf (program ++ rest) = codeOf program ++ codeOf rest :=
  List.flatMap_append

/-- **A walk through code** comes to its end, finds a push cut off, or goes on behind an
instruction. -/
@[elab_as_elim]
theorem walk {motive : Bytes → Prop} (nil : motive [])
    (cut : ∀ first rest size, read first rest = .truncated size → motive (first :: rest))
    (behind : ∀ first rest i size, read first rest = .complete i size →
      motive (rest.drop (size - 1)) → motive (first :: rest))
    (code : Bytes) : motive code := by
  induction hn : code.length using Nat.strongRecOn generalizing code with
  | ind n ih =>
    cases code with
    | nil => exact nil
    | cons first rest =>
      cases hread : read first rest with
      | truncated size => exact cut first rest size hread
      | complete i size =>
        have hlt : (rest.drop (size - 1)).length < n := by
          simp only [List.length_cons] at hn
          simp only [List.length_drop]
          omega
        exact behind first rest i size hread (ih _ hlt _ rfl)

theorem scanFrom_eq_append (found : List Located) (offset : Nat) (code : Bytes) :
    scanFrom found offset code = found.reverse ++ scanFrom [] offset code := by
  induction code using walk generalizing found offset with
  | nil => simp [scanFrom]
  | cut first rest size hread => simp [scanFrom, hread]
  | behind first rest i size hread ih =>
    rw [scanFrom, scanFrom]
    simp only [hread]
    rw [ih, ih [_]]
    simp

theorem scanFrom_of_cut {first : UInt8} {rest : Bytes} {size : Nat}
    (h : read first rest = .truncated size) (offset : Nat) :
    scanFrom [] offset (first :: rest) = [⟨offset, first, .truncated size⟩] := by
  rw [scanFrom, h]
  rfl

theorem scanFrom_of_complete {first : UInt8} {rest : Bytes} {size : Nat}
    (h : read first rest = .complete i size) (offset : Nat) :
    scanFrom [] offset (first :: rest) =
      ⟨offset, first, .complete i size⟩ ::
        scanFrom [] (offset + size) (rest.drop (size - 1)) := by
  rw [scanFrom, h]
  simp only
  rw [scanFrom_eq_append]
  rfl

theorem head?_scanFrom (offset : Nat) (first : UInt8) (rest : Bytes) :
    (scanFrom [] offset (first :: rest)).head? = some ⟨offset, first, read first rest⟩ := by
  cases hread : read first rest with
  | truncated size => rw [scanFrom_of_cut hread, List.head?_cons]
  | complete i size => rw [scanFrom_of_complete hread, List.head?_cons]

/-- Each place that is found is a place in the code, and what is found there is read there. -/
theorem drop_of_mem_scanFrom {place : Located} {offset : Nat}
    (h : place ∈ scanFrom [] offset code) :
    ∃ k rest, place.offset = offset + k ∧ code.drop k = place.first :: rest ∧
      place.fetched = read place.first rest := by
  induction code using walk generalizing offset with
  | nil => simp [scanFrom] at h
  | cut first rest size hread =>
    rw [scanFrom_of_cut hread, List.mem_singleton] at h
    subst h
    exact ⟨0, rest, rfl, rfl, hread.symm⟩
  | behind first rest i size hread ih =>
    rw [scanFrom_of_complete hread, List.mem_cons] at h
    rcases h with rfl | h
    · exact ⟨0, rest, rfl, rfl, hread.symm⟩
    · obtain ⟨k, later, hoffset, hdrop, hfetched⟩ := ih h
      obtain ⟨-, rfl, -⟩ := read_eq_complete_iff.1 hread
      refine ⟨i.bytes.length + k, later, by rw [hoffset, Nat.add_assoc], ?_, hfetched⟩
      rw [eq_bytes_append_of_read hread, ← List.drop_drop, List.drop_left, hdrop]

theorem scanFrom_bytes_append (h : i.Readable) (offset : Nat) (tail : Bytes) :
    scanFrom [] offset (i.bytes ++ tail) =
      ⟨offset, i.opcode, .complete i i.bytes.length⟩ ::
        scanFrom [] (offset + i.bytes.length) tail := by
  have hread : read i.opcode (i.operand ++ tail) = .complete i i.bytes.length := by
    refine read_eq_complete_iff.2 ⟨h, rfl, ?_⟩
    rw [← List.cons_append, ← bytes_eq]
    exact List.prefix_append _ _
  have hdrop : (i.operand ++ tail).drop (i.bytes.length - 1) = tail := by
    rw [length_bytes, Nat.add_sub_cancel, List.drop_left]
  nth_rewrite 1 [bytes_eq]
  rw [List.cons_append, scanFrom]
  simp only [hread, hdrop]
  rw [scanFrom_eq_append]
  rfl

theorem pairwise_offset_scanFrom (offset : Nat) (code : Bytes) :
    (scanFrom [] offset code).Pairwise fun a b => a.offset < b.offset := by
  induction code using walk generalizing offset with
  | nil => simp [scanFrom]
  | cut first rest size hread =>
    rw [scanFrom_of_cut hread]
    exact List.pairwise_singleton _ _
  | behind first rest i size hread ih =>
    rw [scanFrom_of_complete hread, List.pairwise_cons]
    refine ⟨fun place hplace => ?_, ih _⟩
    obtain ⟨k, -, hoffset, -⟩ := drop_of_mem_scanFrom hplace
    obtain ⟨-, rfl, -⟩ := read_eq_complete_iff.1 hread
    have hpos := length_bytes_pos i
    simp only
    omega

theorem getElem?_scanFrom_codeOf (h : ∀ i ∈ program, i.Readable) (offset k : Nat) :
    (scanFrom [] offset (codeOf program))[k]? = program[k]?.map fun i =>
      ⟨offset + (codeOf (program.take k)).length, i.opcode, .complete i i.bytes.length⟩ := by
  induction program generalizing offset k with
  | nil => simp [scanFrom]
  | cons i program ih =>
    rw [List.forall_mem_cons] at h
    rw [codeOf_cons, scanFrom_bytes_append h.1]
    cases k with
    | zero => rfl
    | succ k =>
      rw [List.getElem?_cons_succ, List.getElem?_cons_succ, ih h.2, List.take_succ_cons,
        codeOf_cons, List.length_append, Nat.add_assoc]

/-- The instructions that were found, unless a push is cut off. -/
private def instructions? (places : List Located) : Option (List Instruction) :=
  places.mapM fun place => place.fetched.instruction?

private theorem instructions?_scanFrom_codeOf (h : ∀ i ∈ program, i.Readable) (offset : Nat) :
    instructions? (scanFrom [] offset (codeOf program)) = some program := by
  induction program generalizing offset with
  | nil => simp [scanFrom, instructions?]
  | cons i program ih =>
    rw [List.forall_mem_cons] at h
    rw [codeOf_cons, scanFrom_bytes_append h.1, instructions?, List.mapM_cons]
    change ((instructions? (scanFrom [] _ (codeOf program))).bind fun p => some (i :: p)) = _
    rw [ih h.2, Option.bind_some]

private theorem codeOf_of_instructions? {offset : Nat}
    (h : instructions? (scanFrom [] offset code) = some program) :
    (∀ i ∈ program, i.Readable) ∧ codeOf program = code := by
  induction code using walk generalizing program offset with
  | nil =>
    simp only [scanFrom, instructions?, List.reverse_nil, List.mapM_nil, Option.pure_def,
      Option.some.injEq] at h
    subst h
    exact ⟨by simp, rfl⟩
  | cut first rest size hread =>
    simp [scanFrom_of_cut hread, instructions?, Fetched.instruction?] at h
  | behind first rest i size hread ih =>
    have hi := (read_eq_complete_iff.1 hread).1
    rw [scanFrom_of_complete hread, instructions?, List.mapM_cons] at h
    change ((instructions? (scanFrom [] _ _)).bind fun p => some (i :: p)) = _ at h
    obtain ⟨p, hp, hprogram⟩ := Option.bind_eq_some_iff.1 h
    obtain ⟨hreadable, hcode⟩ := ih hp
    obtain rfl := Option.some.inj hprogram
    refine ⟨List.forall_mem_cons.2 ⟨hi, hreadable⟩, ?_⟩
    rw [codeOf_cons, hcode, eq_bytes_append_of_read hread]

/-- **Code is the bytes of one program at most.** -/
theorem decode?_eq_some_iff :
    decode? code = some program ↔ (∀ i ∈ program, i.Readable) ∧ codeOf program = code := by
  constructor
  · exact codeOf_of_instructions?
  · rintro ⟨h, rfl⟩
    exact instructions?_scanFrom_codeOf h 0

/-- Two programs that begin the same code begin in the same way, as far as both go. -/
theorem bytes_append_cons_inj {j : Instruction} {tail' : Bytes} (hi : i.Readable)
    (hj : j.Readable) (h : i.bytes ++ tail = j.bytes ++ tail') : i = j ∧ tail = tail' := by
  have hread : ∀ k : Instruction, k.Readable → ∀ t, i.bytes ++ tail = k.bytes ++ t →
      read i.opcode (i.operand ++ tail) = .complete k k.bytes.length := by
    intro k hk t ht
    refine read_eq_complete_iff.2 ⟨hk, rfl, ?_⟩
    rw [← List.cons_append, ← bytes_eq, ht]
    exact List.prefix_append _ _
  have heq := (hread i hi tail rfl).symm.trans (hread j hj tail' h)
  simp only [Fetched.complete.injEq] at heq
  obtain ⟨rfl, -⟩ := heq
  exact ⟨rfl, List.append_cancel_left h⟩

theorem exists_eq_append_cons {done : List Instruction} (hprogram : ∀ j ∈ program, j.Readable)
    (hdone : ∀ j ∈ done, j.Readable) (hi : i.Readable)
    (h : codeOf program = codeOf done ++ (i.bytes ++ tail)) :
    ∃ todo, program = done ++ i :: todo := by
  induction done generalizing program with
  | nil =>
    cases program with
    | nil =>
      have hpos := length_bytes_pos i
      have hlen := congrArg List.length h
      simp only [codeOf_nil, List.nil_append, List.length_nil, List.length_append] at hlen
      omega
    | cons j program =>
      have hj := (List.forall_mem_cons.1 hprogram).1
      obtain ⟨rfl, -⟩ := bytes_append_cons_inj hj hi h
      exact ⟨program, rfl⟩
  | cons k done ih =>
    rw [List.forall_mem_cons] at hdone
    rw [codeOf_cons, List.append_assoc] at h
    cases program with
    | nil =>
      have hpos := length_bytes_pos k
      have hlen := congrArg List.length h
      simp only [codeOf_nil, List.length_nil, List.length_append] at hlen
      omega
    | cons j program =>
      rw [List.forall_mem_cons] at hprogram
      obtain ⟨rfl, htail⟩ := bytes_append_cons_inj hprogram.1 hdone.1 h
      obtain ⟨todo, rfl⟩ := ih hprogram.2 hdone.2 htail
      exact ⟨todo, rfl⟩

/-! ### Counting and nesting -/

theorem isCounted_eq_false (h : i.Readable) {form : PushForm} {data : Bytes}
    (hi : i = .push form data) : i.isCounted = false := by
  subst hi
  cases form with
  | direct =>
    have hle : data.length ≤ maxDirect := h
    have hn := toNat_ofNat_of_le hle
    simp only [isCounted, opcode, decide_eq_false_iff_not, UInt8.lt_iff_toNat_lt, hn]
    simp only [maxDirect] at hle
    exact Nat.not_lt.2 (hle.trans (by decide))
  | sized width =>
    simp only [isCounted, opcode]
    cases width <;> rfl

theorem operations_append : operations (program ++ rest) = operations program + operations rest :=
  List.countP_append

theorem operations_cons : operations (i :: program) = operations [i] + operations program := by
  rw [← operations_append, List.singleton_append]

@[simp] theorem nesting_nil (depth : Nat) : nesting depth [] = some depth := rfl

theorem nesting_cons (depth : Nat) :
    nesting depth (i :: program) = (i.nest depth).bind fun d => nesting d program := by
  simp [nesting]

theorem nesting_append (depth : Nat) :
    nesting depth (program ++ rest) = (nesting depth program).bind fun d => nesting d rest := by
  simp [nesting, List.foldlM_append]

end Instruction

end SpendScript
