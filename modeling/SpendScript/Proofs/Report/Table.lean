import Mathlib.Data.List.Forall2
import SpendScript.Crypto.ScriptSignature
import SpendScript.Proofs.Bytes.HexCase
import SpendScript.Proofs.Listing.Lines
import SpendScript.Report.Data
import SpendScript.Report.Text

/-!
# What the table of a trace tells

A row of the table is read from the left to the right: the offset and the word end at the first
space behind them, an item at the first comma and the stack at the bracket.  So the table
determines every step (`Report.append_row_inj`) but for one thing: a stack without items is shown as
`[]`, and so is a stack that holds one empty item.

* `TraceStep.shown` : as much of a step as the table shows;
* `Report.trace_eq_iff` : two tables are the same iff the steps are the same as far as they are
  shown, while the data of two traces are the same only if the steps are.
-/

namespace SpendScript

/-! ### Texts with separators -/

namespace Text

variable {c : Char} {x y rest rest' gap : List Char} {xs ys : List (List Char)}

theorem append_inj_of_not_mem (hx : c ∉ x) (hy : c ∉ y) (hrest : ∀ d ∈ rest.head?, d = c)
    (hrest' : ∀ d ∈ rest'.head?, d = c) (h : x ++ rest = y ++ rest') : x = y ∧ rest = rest' := by
  induction x generalizing y with
  | nil =>
    cases y with
    | nil => exact ⟨rfl, h⟩
    | cons b y =>
      -- the other text would begin with what follows the first one, a separator
      obtain rfl : b = c := hrest b (by rw [← List.nil_append rest, h]; rfl)
      exact absurd List.mem_cons_self hy
  | cons a x ih =>
    cases y with
    | nil =>
      obtain rfl : a = c := hrest' a (by rw [← List.nil_append rest', ← h]; rfl)
      exact absurd List.mem_cons_self hx
    | cons b y =>
      obtain ⟨rfl, htail⟩ := List.cons.inj h
      obtain ⟨rfl, hends⟩ := ih (fun hmem => hx (List.mem_cons_of_mem _ hmem))
        (fun hmem => hy (List.mem_cons_of_mem _ hmem)) htail
      exact ⟨rfl, hends⟩

theorem head?_flatMap_separator (c : Char) (gap : List Char) (xs : List (List Char)) :
    ∀ d ∈ (xs.flatMap fun x => c :: gap ++ x).head?, d = c := by
  cases xs with
  | nil => simp
  | cons x xs => simp

theorem flatMap_separator_inj (hx : ∀ x ∈ xs, c ∉ x) (hy : ∀ y ∈ ys, c ∉ y)
    (h : (xs.flatMap fun x => c :: gap ++ x) = ys.flatMap fun y => c :: gap ++ y) : xs = ys := by
  induction xs generalizing ys with
  | nil =>
    cases ys with
    | nil => rfl
    | cons y ys => exact absurd h (by simp)
  | cons x xs ih =>
    cases ys with
    | nil => exact absurd h (by simp)
    | cons y ys =>
      rw [List.forall_mem_cons] at hx hy
      rw [List.flatMap_cons, List.flatMap_cons, List.append_assoc, List.append_assoc,
        List.append_cancel_left_eq] at h
      obtain ⟨rfl, hrest⟩ := append_inj_of_not_mem hx.1 hy.1 (head?_flatMap_separator c gap xs)
        (head?_flatMap_separator c gap ys) h
      rw [ih hx.2 hy.2 hrest]

theorem intercalate_cons (sep x : List Char) (xs : List (List Char)) :
    sep.intercalate (x :: xs) = x ++ xs.flatMap fun y => sep ++ y := by
  induction xs generalizing x with
  | nil => simp [List.intercalate]
  | cons y xs ih => simp_all [List.intercalate]

/-- **Texts that are put together with a separator can be told apart**, if there are any and the
separator is in none of them. -/
theorem intercalate_inj (hxs : xs ≠ []) (hys : ys ≠ []) (hx : ∀ x ∈ xs, c ∉ x)
    (hy : ∀ y ∈ ys, c ∉ y) (h : (c :: gap).intercalate xs = (c :: gap).intercalate ys) :
    xs = ys := by
  obtain ⟨x, xs, rfl⟩ := List.exists_cons_of_ne_nil hxs
  obtain ⟨y, ys, rfl⟩ := List.exists_cons_of_ne_nil hys
  rw [intercalate_cons, intercalate_cons] at h
  rw [List.forall_mem_cons] at hx hy
  obtain ⟨rfl, hrest⟩ := append_inj_of_not_mem hx.1 hy.1 (head?_flatMap_separator c gap xs)
    (head?_flatMap_separator c gap ys) h
  rw [flatMap_separator_inj hx.2 hy.2 hrest]

end Text

namespace Hex

variable {text : List Char} {bytes bytes' : Bytes} {c : Char}

theorem digits_inj (h : digits bytes = digits bytes') : bytes = bytes' :=
  Except.ok.inj ((decode_digits bytes).symm.trans (h ▸ decode_digits bytes'))

theorem encode_inj (h : encode bytes = encode bytes') : bytes = bytes' :=
  digits_inj (String.ofList_injective h)

theorem not_mem_of_isDigit (htext : ∀ d ∈ text, IsDigit d) (hc : ∀ n < 16, c ≠ digit n) :
    c ∉ text := by
  intro hmem
  obtain ⟨n, hn, hdigit⟩ := htext c hmem
  exact hc n hn hdigit

theorem not_mem_digits (hc : ∀ n < 16, c ≠ digit n) : c ∉ digits bytes :=
  not_mem_of_isDigit (fun _ => isDigit_of_mem_digits) hc

end Hex

/-! ### Steps -/

namespace TraceStep

/-- The step with as much of its stack as a table shows: no items are shown like one empty item. -/
def shown (step : TraceStep) : TraceStep :=
  { step with stack := if step.stack = [] then [[]] else step.stack }

/-- The steps look the same in a table: they are, or one leaves no items and the other one leaves
one that is empty. -/
structure LooksLike (step step' : TraceStep) : Prop where
  /-- They start at the same place. -/
  offset_eq : step.offset = step'.offset
  /-- They have the same word. -/
  opcode_eq : step.opcode = step'.opcode
  /-- They have the same stack, but for an item of which nothing is seen. -/
  stack_eq : step.stack = step'.stack ∨ step.stack = [] ∧ step'.stack = [[]] ∨
    step.stack = [[]] ∧ step'.stack = []

/-- The word of the step is one that stands for the byte of an opcode. -/
def HasMnemonic (step : TraceStep) : Prop :=
  ∃ b, step.opcode = Opcode.describeByte b

variable {step step' : TraceStep}

theorem HasMnemonic.space_not_mem (h : step.HasMnemonic) : ' ' ∉ step.opcode.toList := by
  obtain ⟨b, hword⟩ := h
  have hname : ∀ op : Opcode, ' ' ∉ op.name.toList := by
    intro op hspace
    exact absurd ((Listing.chars_name op).2 ' ' hspace) (by decide)
  rw [hword, Opcode.describeByte]
  split
  · exact hname _
  · split <;> decide

theorem shown_of_ne_nil (h : step.stack ≠ []) : step.shown = step := by
  rw [shown, if_neg h]

theorem shown_stack_ne_nil (step : TraceStep) : step.shown.stack ≠ [] := by
  unfold shown
  split_ifs with h
  · exact List.cons_ne_nil _ _
  · exact h

theorem shown_eq_iff : step.shown = step'.shown ↔ step.LooksLike step' := by
  obtain ⟨offset, opcode, stack⟩ := step
  obtain ⟨offset', opcode', stack'⟩ := step'
  have hstacks : ((if stack = [] then [[]] else stack) = if stack' = [] then [[]] else stack') ↔
      stack = stack' ∨ stack = [] ∧ stack' = [[]] ∨ stack = [[]] ∧ stack' = [] := by
    split_ifs with h h' h'
    · simp [h, h']
    · simp [h, Ne.symm h', eq_comm]
    · simp [h, h']
    · simp [h, h']
  simp only [shown, TraceStep.mk.injEq, hstacks]
  exact ⟨fun ⟨ho, hp, hs⟩ => ⟨ho, hp, hs⟩, fun ⟨ho, hp, hs⟩ => ⟨ho, hp, hs⟩⟩

theorem toValue_inj (h : step.toValue = step'.toValue) : step = step' := by
  obtain ⟨offset, opcode, stack⟩ := step
  obtain ⟨offset', opcode', stack'⟩ := step'
  simp only [toValue, Json.Value.object.injEq, List.cons.injEq, Prod.mk.injEq,
    Json.Value.number.injEq, Json.Value.string.injEq, Json.Value.array.injEq, true_and, and_true]
    at h
  obtain ⟨rfl, rfl, hitems⟩ := h
  have hstacks := List.map_injective_iff.2 (fun _ _ heq =>
    Hex.encode_inj (Json.Value.string.inj heq)) hitems
  rw [List.reverse_injective hstacks]

end TraceStep

/-- **No two traces are the same as data.** -/
theorem TracedVerdict.toValue_eq_iff {steps steps' : List TraceStep} {v : Verdict} :
    (TracedVerdict.mk steps v).toValue = (TracedVerdict.mk steps' v).toValue ↔ steps = steps' := by
  refine ⟨fun h => ?_, fun h => by rw [h]⟩
  simp only [toValue, Json.Value.object.injEq, List.cons.injEq, Prod.mk.injEq,
    Json.Value.array.injEq, true_and, and_true] at h
  exact List.map_injective_iff.2 (fun _ _ => TraceStep.toValue_inj) h

namespace Report

/-! ### Rows -/

/-- The items of a stack as they stand between the brackets. -/
def itemsText (s : Stack) : List Char :=
  [',', ' '].intercalate (s.reverse.map Hex.digits)

variable {s s' : Stack} {step step' : TraceStep} {steps steps' : List TraceStep}
  {rest rest' : List Char} {number k : Nat} {v : Verdict}

theorem toList_stack (s : Stack) : (stack s).toList = '[' :: (itemsText s ++ [']']) := by
  simp [stack, itemsText, Function.comp_def, Listing.toList_encode]

theorem itemsText_inj (hs : s ≠ []) (hs' : s' ≠ []) (h : itemsText s = itemsText s') : s = s' := by
  have hcomma : ∀ s : Stack, ∀ text ∈ s.reverse.map Hex.digits, ',' ∉ text := by
    intro s text htext
    obtain ⟨item, -, rfl⟩ := List.mem_map.1 htext
    exact Hex.not_mem_digits (by decide)
  have hitems := Text.intercalate_inj (by simpa using hs) (by simpa using hs') (hcomma s)
    (hcomma s') h
  exact List.reverse_injective (List.map_injective_iff.2 (fun _ _ => Hex.digits_inj) hitems)

theorem bracket_not_mem_itemsText (s : Stack) : ']' ∉ itemsText s := by
  unfold itemsText
  generalize s.reverse = items
  cases items with
  | nil => simp [List.intercalate]
  | cons item items =>
    rw [List.map_cons, Text.intercalate_cons, List.mem_append, not_or]
    refine ⟨Hex.not_mem_digits (by decide), fun hmem => ?_⟩
    obtain ⟨text, htext, hmem⟩ := List.mem_flatMap.1 hmem
    obtain ⟨item, -, rfl⟩ := List.mem_map.1 htext
    rcases List.mem_append.1 hmem with hmem | hmem
    · exact absurd hmem (by decide)
    · exact Hex.not_mem_digits (by decide) hmem

/-- The characters that fill up a column and the bar behind it. -/
def bar (n : Nat) : List Char :=
  List.replicate n ' ' ++ [' ', '|', ' ']

theorem head?_bar_append (n : Nat) (rest : List Char) : ∀ d ∈ (bar n ++ rest).head?, d = ' ' := by
  cases n <;> simp [bar, List.replicate_succ]

theorem toList_row (number : Nat) (step : TraceStep) :
    (row number step).toList =
      ("   " ++ alignRight 4 number ++ " | ").toList ++ (Hex.ofNatPadded 4 step.offset ++
        (bar 0 ++ (step.opcode.toList ++ (bar (24 - step.opcode.length) ++ ('[' ::
          (itemsText step.stack ++ [']', '\n'])))))) := by
  simp [row, alignLeft, Listing.offsetText, bar, toList_stack]

/-- **A row determines its step**, if there are items on the stack, and what follows on the row. -/
theorem append_row_inj (hword : ' ' ∉ step.opcode.toList)
    (hword' : ' ' ∉ step'.opcode.toList) (hstack : step.stack ≠ []) (hstack' : step'.stack ≠ [])
    (h : (row number step).toList ++ rest = (row number step').toList ++ rest') :
    step = step' ∧ rest = rest' := by
  have hoffset : ∀ offset, ' ' ∉ Hex.ofNatPadded 4 offset := fun offset =>
    Hex.not_mem_of_isDigit (fun _ => Hex.isDigit_of_mem_ofNatPadded) (by decide)
  obtain ⟨offset, opcode, stack⟩ := step
  obtain ⟨offset', opcode', stack'⟩ := step'
  -- both rows begin with the same number; the other columns are cut off from left to right
  simp only [toList_row, List.append_assoc, List.append_cancel_left_eq] at h
  obtain ⟨hoffsets, hcolumns⟩ := Text.append_inj_of_not_mem (hoffset _) (hoffset _)
    (head?_bar_append _ _) (head?_bar_append _ _) h
  obtain rfl := Hex.ofNatPadded_inj.1 hoffsets
  obtain ⟨hopcodes, hcolumns⟩ := Text.append_inj_of_not_mem hword hword'
    (head?_bar_append _ _) (head?_bar_append _ _) (List.append_cancel_left hcolumns)
  obtain rfl := String.toList_inj.1 hopcodes
  have hlast := List.append_cancel_left hcolumns
  simp only [List.cons_append, List.append_assoc, List.cons_inj_right] at hlast
  obtain ⟨hitems, hends⟩ := Text.append_inj_of_not_mem (bracket_not_mem_itemsText _)
    (bracket_not_mem_itemsText _) (by simp) (by simp) hlast
  obtain rfl := itemsText_inj hstack hstack' hitems
  exact ⟨rfl, by simpa using hends⟩

theorem row_shown (number : Nat) (step : TraceStep) : row number step.shown = row number step := by
  by_cases h : step.stack = []
  · obtain ⟨offset, opcode, stack⟩ := step
    obtain rfl : stack = [] := h
    rfl
  · rw [TraceStep.shown_of_ne_nil h]

/-! ### Tables -/

/-- The rows of a table from a number on. -/
def rows (k : Nat) (steps : List TraceStep) : List Char :=
  (steps.zipIdx k).flatMap fun (step, i) => (row (i + 1) step).toList

theorem rows_cons (k : Nat) (step : TraceStep) (steps : List TraceStep) :
    rows k (step :: steps) = (row (k + 1) step).toList ++ rows (k + 1) steps := by
  simp [rows]

theorem rows_map_shown (k : Nat) (steps : List TraceStep) :
    rows k (steps.map TraceStep.shown) = rows k steps := by
  induction steps generalizing k with
  | nil => rfl
  | cons step steps ih => rw [List.map_cons, rows_cons, rows_cons, row_shown, ih]

theorem row_ne_nil (number : Nat) (step : TraceStep) (rest : List Char) :
    (row number step).toList ++ rest ≠ [] := by
  simp [row]

theorem rows_inj (h : ∀ step ∈ steps, ' ' ∉ step.opcode.toList ∧ step.stack ≠ [])
    (h' : ∀ step ∈ steps', ' ' ∉ step.opcode.toList ∧ step.stack ≠ [])
    (heq : rows k steps = rows k steps') : steps = steps' := by
  induction steps generalizing k steps' with
  | nil =>
    cases steps' with
    | nil => rfl
    | cons step steps' =>
      rw [rows_cons] at heq
      exact absurd heq.symm (row_ne_nil _ _ _)
  | cons step steps ih =>
    cases steps' with
    | nil =>
      rw [rows_cons] at heq
      exact absurd heq (row_ne_nil _ _ _)
    | cons step' steps' =>
      rw [List.forall_mem_cons] at h h'
      rw [rows_cons, rows_cons] at heq
      obtain ⟨rfl, hrest⟩ := append_row_inj h.1.1 h'.1.1 h.1.2 h'.1.2 heq
      rw [ih h.2 h'.2 hrest]

theorem toList_join_rows (k : Nat) (steps : List TraceStep) :
    (String.join ((steps.zipIdx k).map fun (step, i) => row (i + 1) step)).toList =
      rows k steps := by
  rw [String.toList_join, List.flatMap_map]
  exact List.flatMap_congr fun _ _ => rfl

/-- Cancelling for whole texts; the one in front of the rows is better not taken apart into its
characters. -/
theorem append_between_inj {before middle after x y : String} :
    before ++ x ++ middle ++ after = before ++ y ++ middle ++ after ↔ x = y := by
  rw [String.append_left_inj, String.append_left_inj, String.append_right_inj]

theorem trace_eq_iff_rows :
    trace ⟨steps, v⟩ = trace ⟨steps', v⟩ ↔ rows 0 steps = rows 0 steps' := by
  unfold trace
  refine append_between_inj.trans ?_
  rw [← toList_join_rows, ← toList_join_rows, String.toList_inj]

/-- **Two tables are the same iff the steps are shown in the same way.** -/
theorem trace_eq_iff_shown (h : ∀ step ∈ steps, ' ' ∉ step.opcode.toList)
    (h' : ∀ step ∈ steps', ' ' ∉ step.opcode.toList) :
    trace ⟨steps, v⟩ = trace ⟨steps', v⟩ ↔
      steps.map TraceStep.shown = steps'.map TraceStep.shown := by
  have hshown : ∀ {steps : List TraceStep}, (∀ step ∈ steps, ' ' ∉ step.opcode.toList) →
      ∀ step ∈ steps.map TraceStep.shown, ' ' ∉ step.opcode.toList ∧ step.stack ≠ [] := by
    intro steps h step hstep
    obtain ⟨step, hmem, rfl⟩ := List.mem_map.1 hstep
    exact ⟨h step hmem, step.shown_stack_ne_nil⟩
  -- no stack of a step as it is shown is empty, so the rows of these tell the steps apart
  rw [trace_eq_iff_rows, ← rows_map_shown, ← rows_map_shown 0 steps']
  exact ⟨rows_inj (hshown h) (hshown h'), fun heq => by rw [heq]⟩

theorem map_shown_eq_iff :
    steps.map TraceStep.shown = steps'.map TraceStep.shown ↔
      List.Forall₂ TraceStep.LooksLike steps steps' := by
  rw [← List.forall₂_eq_eq_eq, List.forall₂_map_left_iff, List.forall₂_map_right_iff]
  simp only [TraceStep.shown_eq_iff]

/-! ### What is told -/

/-- **What the table of a trace tells.**  Two tables with the same verdict are the same iff they
have as many steps and each step has the same offset, the same word and the same stack, or one stack
has no items and the other one an empty item only.  As data, no two traces are the same. -/
theorem trace_eq_iff (h : ∀ step ∈ steps, step.HasMnemonic)
    (h' : ∀ step ∈ steps', step.HasMnemonic) (v : Verdict) :
    (trace ⟨steps, v⟩ = trace ⟨steps', v⟩ ↔ List.Forall₂ TraceStep.LooksLike steps steps') ∧
      ((TracedVerdict.mk steps v).toValue = (TracedVerdict.mk steps' v).toValue ↔
        steps = steps') := by
  have htable := @trace_eq_iff_shown steps steps' v (fun step hstep => (h step hstep).space_not_mem)
    fun step hstep => (h' step hstep).space_not_mem
  exact ⟨htable.trans map_shown_eq_iff, TracedVerdict.toValue_eq_iff⟩

/-- An empty item below another one is seen. -/
theorem trace_eq_iff_below :
    trace ⟨[⟨0, "OP_1", [[1]]⟩], ⟨true, none⟩⟩ ≠
      trace ⟨[⟨0, "OP_1", [[1], []]⟩], ⟨true, none⟩⟩ := by
  have hname : "OP_1" = Opcode.describeByte 0x51 := by decide +kernel
  have hword : ∀ stack, ∀ step ∈ [TraceStep.mk 0 "OP_1" stack], step.HasMnemonic := by
    intro stack step hstep
    rw [List.mem_singleton.1 hstep]
    exact ⟨0x51, hname⟩
  intro heq
  have hsame := (trace_eq_iff (hword _) (hword _) _).1.1 heq
  cases hsame with
  | cons hstep _ => exact absurd hstep.stack_eq (by decide)

/-- The first step of this run leaves one empty item.  The table is the same as if it had left
none; the data are not. -/
theorem trace_emptyItem : ∃ steps steps' : List TraceStep, ∃ v : Verdict,
    Spend.debug .standard .zero ⟨"", "OP_0 OP_DROP"⟩ = ⟨steps, v⟩ ∧
      steps = [⟨0, "OP_0", [[]]⟩, ⟨1, "OP_DROP", []⟩] ∧
      steps' = [⟨0, "OP_0", []⟩, ⟨1, "OP_DROP", []⟩] ∧
      (∀ step ∈ steps ++ steps', step.HasMnemonic) ∧
      trace ⟨steps, v⟩ = trace ⟨steps', v⟩ ∧ steps ≠ steps' ∧
      (TracedVerdict.mk steps v).toValue ≠ (TracedVerdict.mk steps' v).toValue := by
  have hne : [TraceStep.mk 0 "OP_0" [[]], ⟨1, "OP_DROP", []⟩] ≠
      [⟨0, "OP_0", []⟩, ⟨1, "OP_DROP", []⟩] := by decide
  have hwords : ∀ step ∈ [TraceStep.mk 0 "OP_0" [[]], ⟨1, "OP_DROP", []⟩, ⟨0, "OP_0", []⟩,
      ⟨1, "OP_DROP", []⟩], step.opcode = Opcode.describeByte 0x00 ∨
        step.opcode = Opcode.describeByte 0x75 := by decide +kernel
  refine ⟨_, _, ⟨false, none⟩, by decide +kernel, rfl, rfl, ?_, rfl, hne, ?_⟩
  · intro step hstep
    exact (hwords step hstep).elim (fun h => ⟨_, h⟩) fun h => ⟨_, h⟩
  · rwa [Ne, TracedVerdict.toValue_eq_iff]

end Report

end SpendScript
